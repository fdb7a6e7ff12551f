import Mathlib.Algebra.GroupWithZero.Nat
import Posl.Proofs.BoundResults
import Posl.Proofs.Literals

/-!
# Built-ins on text

Texts are joined and measured character by character.  What is joined is typed as a text,
so that it never agrees with a number but only with the same characters.  What is measured
is an integer, and agrees with every spelling of it.
-/

namespace Posl

/-! ## Joined texts -/

/-- Constants that have these texts, one by one and whatever their types. -/
def AreTextsOf (texts : List String) (parts : List Term) : Prop :=
  List.Forall₂ (fun text part => ∃ type, part = .const text type) texts parts

theorem mapM_constantText?_eq_some_iff {texts : List String} {parts : List Term} :
    parts.mapM constantText? = some texts ↔ AreTextsOf texts parts := by
  have hpart : ∀ text part, constantText? part = some text ↔ ∃ type, part = .const text type := by
    intro text part
    cases part <;> simp [constantText?, eq_comm]
  simp only [mapM_eq_some_iff, AreTextsOf, hpart]

/-- The joined text of at least one part, typed as a string. -/
theorem concatenation?_eq_some_iff {parts : List Term} {joined : Term} :
    concatenation? parts = some joined ↔ parts ≠ [] ∧ ∃ texts, AreTextsOf texts parts ∧
      joined = .const (String.join texts) (some "String") := by
  have hjoin : concatenation? parts = if parts.isEmpty then none else
      (parts.mapM constantText?).map fun texts => .const (String.join texts) (some "String") := by
    unfold concatenation?
    cases parts with
    | nil => rfl
    | cons part parts => exact Option.map_eq_bind.symm
  rw [hjoin, Option.ite_none_left_eq_some, Option.map_eq_some_iff]
  simp only [List.isEmpty_iff, mapM_constantText?_eq_some_iff, eq_comm (a := joined), ne_eq]

/-! ## Lengths as results -/

namespace Real64

/-- Where an integer is not too large, checking its size makes no difference to the real
next to it. -/
theorem eq_ofInt_of_ofInt? {n : Int} {x : Real64} (hx : ofInt? n = some x) : x = ofInt n := by
  obtain ⟨units, hunits, rfl⟩ := Option.map_eq_some_iff.mp hx
  rw [nearest?, Option.ite_none_right_eq_some] at hunits
  rw [ofInt, Option.some.inj hunits.2]

/-- No integer that needs more than 64 bits is the same real as a length, up to where the
reals are too far from each other. -/
theorem apart_of_long {k : Int} {length : Nat} (hlong : ¬ isWord k)
    (hlength : length + 512 < 2 ^ 63) : Apart k length := by
  have hbelow : (ofInt (-2 ^ 63)).value < (ofInt 0).value := by decide +kernel
  have habove : (ofInt (2 ^ 63 - 513)).value < (ofInt (2 ^ 63)).value := by decide +kernel
  rw [isWord_iff] at hlong
  rcases Int.lt_or_le k (-2 ^ 63) with hleast | hgreatest
  · refine Int.ne_of_lt ?_
    calc (ofInt k).value ≤ (ofInt (-2 ^ 63)).value := value_ofInt_mono (by omega)
      _ < (ofInt 0).value := hbelow
      _ ≤ (ofInt length).value := value_ofInt_mono (by omega)
  · refine Int.ne_of_gt ?_
    calc (ofInt length).value ≤ (ofInt (2 ^ 63 - 513)).value := value_ofInt_mono (by omega)
      _ < (ofInt (2 ^ 63)).value := habove
      _ ≤ (ofInt k).value := value_ofInt_mono (by omega)

end Real64

namespace Number

theorem writesInteger_length {length : Nat} (hword : isWord length) :
    WritesInteger (.const (toString length) (some integerType)) length :=
  writesInteger_toTerm hword

theorem isEqual_real (x : Real64) (y : Number) :
    (real x).isEqual y = (x.value == y.toReal.value) := by
  cases y <;> rfl

end Number

namespace Builtin

section Length

variable {name : String} {type : Option String} {k : Int} {length : Nat}
  (hname : readInteger? name.toList = some k)

include hname

/-- Where a result and a length are compared as texts, they agree only if they are the same
integer. -/
theorem eq_of_accepts_text
    (hnumber : Number.ofTerm? (.const name type) = none ∨
      Number.ofTerm? (.const (toString length) (some Number.integerType)) = none)
    (haccepts : accepts (.const name type)
      (.const (toString length) (some Number.integerType))) : k = length := by
  obtain ⟨rfl, -⟩ := (accepts_of_no_number hnumber).mp haccepts
  exact Option.some.inj (hname.symm.trans (readInteger?_toString length))

/-- A result that is too long for an integer agrees with no length. -/
theorem accepts_length_of_long (htype : type = none ∨ type = some Number.integerType)
    (hlong : ¬ isWord k) (hshort : length + 512 < 2 ^ 63) :
    ¬ accepts (.const name type) (.const (toString length) (some Number.integerType)) := by
  intro haccepts
  have hfar := Real64.apart_of_long hlong hshort
  have hne : k ≠ length := fun heq => hfar (congrArg _ (congrArg _ heq))
  cases hnumber : Number.ofTerm? (.const name type) with
  | none => exact hne (eq_of_accepts_text hname (.inl hnumber) haccepts)
  | some number =>
      rcases htype with rfl | rfl
      · have hread := (Number.ofTerm?_of_long hname hlong).symm.trans hnumber
        obtain ⟨real, hreal, rfl⟩ := Option.map_eq_some_iff.mp hread
        obtain rfl := Real64.eq_ofInt_of_ofInt? hreal
        have hword : isWord length := isWord_iff.mpr (by omega)
        have hcomputed := (Number.writesInteger_length hword).ofTerm?
        rw [accepts_of_numbers hnumber hcomputed, Number.isEqual_real, beq_iff_eq] at haccepts
        exact hfar haccepts
      · rw [Number.ofTerm?_integer_of_long hname hlong] at hnumber
        cases hnumber

/-- A result that is an integer agrees with a length exactly where it is that length. -/
theorem accepts_length_iff (htype : type = none ∨ type = some Number.integerType)
    (hsize : isWord k ∨ length + 512 < 2 ^ 63) :
    accepts (.const name type) (.const (toString length) (some Number.integerType)) ↔
      k = length := by
  have hlength : readInteger? (toString length).toList = some (length : Int) :=
    readInteger?_toString length
  by_cases hk : isWord k
  · by_cases hword : isWord length
    · rw [accepts_of_integers (.intro htype hname hk) (Number.writesInteger_length hword),
        beq_iff_eq]
    · have hcomputed := Number.ofTerm?_integer_of_long hlength hword
      constructor
      · exact eq_of_accepts_text hname (.inr hcomputed)
      · rintro rfl
        exact absurd hk hword
  · have hshort := hsize.resolve_left hk
    constructor
    · exact fun haccepts => absurd haccepts (accepts_length_of_long hname htype hk hshort)
    · rintro rfl
      exact absurd (isWord_iff.mpr (by omega)) hk

end Length

end Builtin

/-! ## Exact texts and lengths -/

namespace Registry

variable {table : SymbolTable} {names : List String}

/-- What a call of a built-in derives that computes its result. -/
theorem callAtom_derives_iff (hlists : table.Lists names)
    (hsize : (standard table).2.size ≤ SymbolTable.capacity) (builtin : StandardBuiltin)
    {compute? : List Term → Option Term}
    (hanswer : builtin.answer? = Builtin.computing builtin.name compute?) {result call : Term}
    {inputs : List Term} (hcall : call.Calls builtin.name (result :: inputs)) {fact : Clause} :
    (standard table).1.callAtom (standard table).2 call = .derives fact ↔
      ∃ computed, compute? inputs = some computed ∧ Builtin.accepts result computed ∧
        fact = Builtin.fact builtin.name (computed :: inputs) := by
  rw [callAtom_standard_of_symbolName? hlists hsize hcall.1, hanswer,
    CallResult.ofAnswer_eq_derives_iff, Builtin.computing_of_operands hcall.2,
    Option.bind_eq_some_iff]
  simp only [Option.ite_none_right_eq_some, Option.some_inj, eq_comm (a := fact)]

theorem callAtom_concatenation_iff (hlists : table.Lists names)
    (hsize : (standard table).2.size ≤ SymbolTable.capacity) {result call : Term}
    {parts : List Term} (hcall : call.Calls "stringConcatenate" (result :: parts))
    {fact : Clause} :
    (standard table).1.callAtom (standard table).2 call = .derives fact ↔
      parts ≠ [] ∧ ∃ texts, AreTextsOf texts parts ∧
        Builtin.accepts result (.const (String.join texts) (some "String")) ∧
        fact = Builtin.fact "stringConcatenate"
          (.const (String.join texts) (some "String") :: parts) := by
  refine (callAtom_derives_iff hlists hsize .stringConcatenate rfl hcall).trans ?_
  simp only [concatenation?_eq_some_iff]
  constructor
  · rintro ⟨_, ⟨hparts, texts, htexts, rfl⟩, haccepts, rfl⟩
    exact ⟨hparts, texts, htexts, haccepts, rfl⟩
  · rintro ⟨hparts, texts, htexts, haccepts, rfl⟩
    exact ⟨_, ⟨hparts, texts, htexts, rfl⟩, haccepts, rfl⟩

theorem callAtom_length_iff (hlists : table.Lists names)
    (hsize : (standard table).2.size ≤ SymbolTable.capacity) {result call : Term} {text : String}
    {type : Option String} (hcall : call.Calls "stringLength" [result, .const text type])
    {fact : Clause} :
    (standard table).1.callAtom (standard table).2 call = .derives fact ↔
      Builtin.accepts result (.const (toString text.length) (some "Integer")) ∧
        fact = Builtin.fact "stringLength"
          [.const (toString text.length) (some "Integer"), .const text type] := by
  refine (callAtom_derives_iff hlists hsize .stringLength rfl hcall).trans ?_
  constructor
  · rintro ⟨_, ⟨⟩, haccepts, rfl⟩
    exact ⟨haccepts, rfl⟩
  · rintro ⟨haccepts, rfl⟩
    exact ⟨_, rfl, haccepts, rfl⟩

/-- Joining and measuring texts is exact.  With the result unbound, the texts of one
constant or more are joined in order; a result without a type has to be that text, character
for character, whatever number it may write.  A length is confirmed where it is the number of
characters, however the integer is spelled; an integer that 64 bits are too few for is the
length of no text, as far as texts can be that long.  What was joined is as long as its
parts. -/
theorem text_builtins_exact (hlists : table.Lists names)
    (hsize : (standard table).2.size ≤ SymbolTable.capacity) :
    let outcome := (standard table).1.callAtom (standard table).2
    let joined (texts : List String) (parts : List Term) :=
      Builtin.fact "stringConcatenate" (.const (String.join texts) (some "String") :: parts)
    let measured (length : Nat) (text : Term) :=
      Builtin.fact "stringLength" [.const (toString length) (some "Integer"), text]
    (∀ result parts call fact, call.Calls "stringConcatenate" (result :: parts) →
      result.IsUnbound →
      (outcome call = .derives fact ↔
        parts ≠ [] ∧ ∃ texts, AreTextsOf texts parts ∧ fact = joined texts parts)) ∧
    (∀ name parts call fact, call.Calls "stringConcatenate" (.const name none :: parts) →
      (outcome call = .derives fact ↔
        parts ≠ [] ∧ ∃ texts, AreTextsOf texts parts ∧ name = String.join texts ∧
          fact = joined texts parts)) ∧
    (∀ name resultType k text type call fact,
      call.Calls "stringLength" [.const name resultType, .const text type] →
      resultType = none ∨ resultType = some "Integer" → readInteger? name.toList = some k →
      isWord k ∨ text.length + 512 < 2 ^ 63 →
      (outcome call = .derives fact ↔
        k = text.length ∧ fact = measured text.length (.const text type))) ∧
    (∀ result parts call fact, call.Calls "stringConcatenate" (result :: parts) →
      outcome call = .derives fact →
      ∃ texts, AreTextsOf texts parts ∧ fact = joined texts parts ∧
        ∀ length type measure, length.IsUnbound →
          measure.Calls "stringLength" [length, .const (String.join texts) type] →
          outcome measure = .derives
            (measured (texts.map String.length).sum (.const (String.join texts) type))) := by
  intro outcome joined measured
  refine ⟨?_, ?_, ?_, ?_⟩
  · intro result parts call fact hcall hunbound
    refine (callAtom_concatenation_iff hlists hsize hcall).trans ?_
    simp only [Builtin.accepts_of_isUnbound hunbound, true_and]
    exact Iff.rfl
  · intro name parts call fact hcall
    refine (callAtom_concatenation_iff hlists hsize hcall).trans ?_
    have hnumber : ∀ text, Number.ofTerm? (.const text (some "String")) = none := fun _ => rfl
    simp only [Builtin.accepts_of_no_number (.inr (hnumber _)), true_or, and_true]
    exact Iff.rfl
  · intro name resultType k text type call fact hcall htype hname hlength
    refine (callAtom_length_iff hlists hsize hcall).trans ?_
    exact and_congr_left' (Builtin.accepts_length_iff hname htype hlength)
  · intro result parts call fact hcall hfact
    obtain ⟨-, texts, htexts, -, rfl⟩ := (callAtom_concatenation_iff hlists hsize hcall).mp hfact
    refine ⟨texts, htexts, rfl, fun length type measure hunbound hmeasure => ?_⟩
    refine (callAtom_length_iff hlists hsize hmeasure).mpr ?_
    rw [String.length_join]
    exact ⟨Builtin.accepts_of_isUnbound hunbound _, rfl⟩

/-- A result that writes the same number as the joined digits is not the joined text, and a
length is confirmed with a sign and a zero in front. -/
theorem text_builtins_exact_digits :
    let parts : List Term := [.const "1" none, .const "2" (some "Integer")]
    let text : Term := .const "héllo" none
    let outcome := (standard ∅).1.callAtom (standard ∅).2
    (standard ∅).2.size ≤ SymbolTable.capacity ∧
      outcome (.call "stringConcatenate" (.const "12" none :: parts)) = .derives
        (Builtin.fact "stringConcatenate" (.const "12" (some "String") :: parts)) ∧
      (∀ fact, outcome (.call "stringConcatenate" (.const "12.0" none :: parts)) ≠
        .derives fact) ∧
      outcome (.call "stringLength" [.const "+05" (some "Integer"), text]) = .derives
        (Builtin.fact "stringLength" [.const "5" (some "Integer"), text]) := by
  intro parts text outcome
  obtain ⟨-, hconstant, hlength, -⟩ :=
    text_builtins_exact SymbolTable.lists_empty size_standard_empty
  have htexts : AreTextsOf ["1", "2"] parts :=
    .cons ⟨_, rfl⟩ (.cons ⟨_, rfl⟩ .nil)
  refine ⟨size_standard_empty, ?_, ?_, ?_⟩
  · exact (hconstant _ _ _ _ (Term.calls_call _ _)).mpr
      ⟨by simp [parts], ["1", "2"], htexts, by decide, by decide⟩
  · intro fact hfact
    obtain ⟨-, texts, htexts, hname, -⟩ :=
      (hconstant _ _ _ _ (Term.calls_call _ _)).mp hfact
    obtain rfl : ["1", "2"] = texts :=
      Option.some.inj (mapM_constantText?_eq_some_iff.mpr htexts)
    exact absurd hname (by decide)
  · exact (hlength _ _ 5 _ _ _ _ (Term.calls_call _ _) (.inr rfl) (by decide +kernel)
      (.inl (by decide))).mpr ⟨by decide, by decide⟩

end Registry

end Posl
