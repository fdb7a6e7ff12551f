import Posl.Proofs.Rounding
import Posl.Proofs.Routing

/-!
# Comparison of integers

Integers are compared as reals.  A comparison that holds of the reals holds of the
integers, but integers that are one real compare as equal.
-/

namespace Posl

namespace Number

/-- Constants that write an integer of 64 bits, in whichever spelling: without a
type, or with the type of integers. -/
inductive WritesInteger : Term → Int → Prop
  | intro {name : String} {type : Option String} {value : Int}
      (htype : type = none ∨ type = some integerType)
      (hname : Posl.readInteger? name.toList = some value) (hword : isWord value = true) :
      WritesInteger (.const name type) value

theorem WritesInteger.ofTerm? {term : Term} {value : Int} (hterm : WritesInteger term value) :
    ofTerm? term = some (.integer value) := by
  obtain ⟨htype, hname, hword⟩ := hterm
  have hread : ∀ {name : String}, Posl.readInteger? name.toList = some value →
      readInteger? name = some (.integer value) := by
    intro name hname
    rw [readInteger?, hname, Option.filter_some_pos hword, Option.map_some]
  rcases htype with rfl | rfl
  · rw [Number.ofTerm?, hread hname]
    rfl
  · rw [Number.ofTerm?, if_pos rfl, hread hname]

theorem WritesInteger.natAbs_le {term : Term} {value : Int} (hterm : WritesInteger term value) :
    value.natAbs ≤ 2 ^ 63 := by
  obtain ⟨-, -, hword⟩ := hterm
  rw [isWord, Bool.and_eq_true, decide_eq_true_iff, decide_eq_true_iff] at hword
  omega

end Number

open Number (WritesInteger)

/-- A comparison of two integers asserts the call if the reals nearest to them
compare. -/
theorem testing_comparesAs {x y : Term} {a b : Int} (hx : WritesInteger x a)
    (hy : WritesInteger y b) (predicate : String) (relation : Real64 → Real64 → Bool) (oid : Term) :
    Builtin.testing predicate (comparesAs relation) (.atom predicate [oid, x, y]) =
      if relation (.ofInt a) (.ofInt b) then some (Builtin.fact predicate [x, y]) else none := by
  simp only [Builtin.testing, Term.operands, List.drop_one, List.tail_cons, comparesAs, hx.ofTerm?,
    hy.ofTerm?, Number.toReal]

namespace Registry

variable {table : SymbolTable} {names : List String}

/-- Integers compare in their order where they are different reals, and fail to
compare where they are not.  They are different reals if one has no more than 53
bits or if they are more than 1024 apart. -/
theorem comparisons_of_integers (hlists : table.Lists names)
    (hsize : (standard table).2.size ≤ SymbolTable.capacity) {x y : Term} {a b : Int}
    (hx : WritesInteger x a) (hy : WritesInteger y b) (oid : Term) :
    (standard table).1.callAtom (standard table).2 (.atom "greaterThan" [oid, x, y]) =
        .ofAnswer (if b < a ∧ Real64.Apart a b then
          some (Builtin.fact "greaterThan" [x, y]) else none) ∧
      (standard table).1.callAtom (standard table).2 (.atom "lessThan" [oid, x, y]) =
        .ofAnswer (if a < b ∧ Real64.Apart a b then
          some (Builtin.fact "lessThan" [x, y]) else none) ∧
      (a ≠ b → a.natAbs < 2 ^ 53 ∨ b.natAbs < 2 ^ 53 ∨ 1024 < (a - b).natAbs →
        Real64.Apart a b) := by
  refine ⟨?_, ?_, fun hne hfar => ?_⟩
  · have hcall := callAtom_standard_of_name hlists hsize .greaterThan [oid, x, y]
    rw [StandardBuiltin.answer?, testing_comparesAs hx hy] at hcall
    simp only [Real64.isLess_ofInt_iff, Real64.apart_comm b a] at hcall
    exact hcall
  · have hcall := callAtom_standard_of_name hlists hsize .lessThan [oid, x, y]
    rw [StandardBuiltin.answer?, testing_comparesAs hx hy] at hcall
    simp only [Real64.isLess_ofInt_iff] at hcall
    exact hcall
  · have ha := hx.natAbs_le
    have hb := hy.natAbs_le
    rcases Int.lt_or_gt_of_ne hne with hlt | hgt
    · exact Real64.apart_of_lt hlt (by omega)
    · exact (Real64.apart_comm b a).mp (Real64.apart_of_lt hgt (by omega))

/-- Two spellings of small integers, which are compared as what they write. -/
theorem greaterThan_five_three :
    WritesInteger (.const "5" none) 5 ∧
    WritesInteger (.const "+03" (some "Integer")) 3 ∧
    (standard ∅).1.callAtom (standard ∅).2
        (.atom "greaterThan" [.anon, .const "5" none, .const "+03" (some "Integer")]) =
      .derives (Builtin.fact "greaterThan"
        [.const "5" none, .const "+03" (some "Integer")]) := by
  have hfive : WritesInteger (.const "5" none) 5 :=
    .intro (.inl rfl) (by decide +kernel) (by decide)
  have hthree : WritesInteger (.const "+03" (some "Integer")) 3 :=
    .intro (.inr rfl) (by decide +kernel) (by decide)
  refine ⟨hfive, hthree, ?_⟩
  obtain ⟨hgreater, -, hapart⟩ :=
    comparisons_of_integers SymbolTable.lists_empty size_standard_empty hfive hthree .anon
  rw [hgreater, if_pos ⟨by decide, hapart (by decide) (.inl (by decide))⟩]
  rfl

/-- Two neighbours that are one real: the larger does not compare as greater. -/
theorem greaterThan_misses_next_integer :
    WritesInteger (.const "9007199254740993" none) 9007199254740993 ∧
    WritesInteger (.const "9007199254740992" none) 9007199254740992 ∧
    (standard ∅).1.callAtom (standard ∅).2 (.atom "greaterThan"
        [.anon, .const "9007199254740993" none, .const "9007199254740992" none]) = .fails := by
  refine ⟨.intro (.inl rfl) (by decide +kernel) (by decide),
    .intro (.inl rfl) (by decide +kernel) (by decide), ?_⟩
  rw [callAtom_standard SymbolTable.lists_empty size_standard_empty]
  decide +kernel

end Registry

end Posl
