import Mathlib.Algebra.Group.Nat.Defs
import Posl.Number

/-!
# Rounding of integers

Integers are brought to reals by rounding to 53 significant bits.  Rounding never
crosses a multiple of its step, so it keeps the order of integers, although it may
make two of them one; it changes none of up to 53 bits, and moves those of 64 bits
by no more than 512.
-/

namespace Posl.Real64

section RoundQuotient

variable {numerator larger denominator bound : Nat}

theorem le_roundQuotient (hle : bound * denominator ≤ numerator) (hpos : 0 < denominator) :
    bound ≤ roundQuotient numerator denominator := by
  have hquotient : bound ≤ numerator / denominator := (Nat.le_div_iff_mul_le hpos).mpr hle
  rw [roundQuotient]
  split <;> omega

/-- A quotient that is the bound already leaves no remainder to round up. -/
theorem roundQuotient_le (hle : numerator ≤ bound * denominator) (hpos : 0 < denominator) :
    roundQuotient numerator denominator ≤ bound := by
  have hdivision : denominator * (numerator / denominator) + numerator % denominator = numerator :=
    Nat.div_add_mod numerator denominator
  have hquotient : numerator / denominator ≤ bound :=
    Nat.div_le_of_le_mul (Nat.mul_comm bound denominator ▸ hle)
  rw [roundQuotient]
  split
  · exact hquotient
  · next hround =>
      refine Nat.succ_le_of_lt (Nat.lt_of_le_of_ne hquotient fun heq => hround (.inl ?_))
      rw [heq, Nat.mul_comm] at hdivision
      omega

theorem roundQuotient_mono (hle : numerator ≤ larger) :
    roundQuotient numerator denominator ≤ roundQuotient larger denominator := by
  have hsmaller := Nat.div_add_mod numerator denominator
  have hlarger := Nat.div_add_mod larger denominator
  rcases Nat.lt_or_eq_of_le (Nat.div_le_div_right (c := denominator) hle) with hlt | heq
  · simp only [roundQuotient]
    split <;> split <;> omega
  · rw [heq] at hsmaller
    simp only [roundQuotient, heq]
    split <;> split <;> omega

/-- Rounding moves a quotient by half at most. -/
theorem roundQuotient_error (hpos : 0 < denominator) :
    2 * numerator ≤ (2 * roundQuotient numerator denominator + 1) * denominator ∧
      2 * roundQuotient numerator denominator * denominator ≤ 2 * numerator + denominator := by
  have hdivision := Nat.div_add_mod numerator denominator
  have hremainder := Nat.mod_lt numerator hpos
  rw [roundQuotient]
  split <;> simp only [Nat.add_mul, Nat.mul_add, Nat.mul_assoc, Nat.one_mul] <;>
    rw [Nat.mul_comm _ denominator] <;> omega

end RoundQuotient

/-! ## Rounding to 53 bits -/

def roundingStep (n : Nat) : Nat := 2 ^ (n.log2 - 52)

theorem roundingStep_pos (n : Nat) : 0 < roundingStep n := Nat.two_pow_pos _

/-- Numbers of one length are rounded in the same step. -/
theorem nearest_one (n : Nat) :
    nearest n 1 = roundQuotient n (roundingStep n) * roundingStep n := by
  rw [nearest, Nat.div_one, Nat.one_mul]
  rfl

section Nearest

variable {n larger bound : Nat}

theorem le_nearest (hstep : roundingStep n ∣ bound) (hle : bound ≤ n) : bound ≤ nearest n 1 := by
  obtain ⟨count, rfl⟩ := hstep
  rw [Nat.mul_comm] at hle ⊢
  rw [nearest_one]
  exact Nat.mul_le_mul_right _ (le_roundQuotient hle (roundingStep_pos n))

/-- A number that the step divides is never passed by rounding. -/
theorem nearest_le (hstep : roundingStep n ∣ bound) (hle : n ≤ bound) : nearest n 1 ≤ bound := by
  obtain ⟨count, rfl⟩ := hstep
  rw [Nat.mul_comm] at hle ⊢
  rw [nearest_one]
  exact Nat.mul_le_mul_right _ (roundQuotient_le hle (roundingStep_pos n))

theorem nearest_of_dvd (hstep : roundingStep n ∣ n) : nearest n 1 = n :=
  Nat.le_antisymm (nearest_le hstep (Nat.le_refl n)) (le_nearest hstep (Nat.le_refl n))

/-- Between numbers of different lengths lies a power of two, which rounding does not
cross. -/
theorem nearest_mono (hle : n ≤ larger) : nearest n 1 ≤ nearest larger 1 := by
  by_cases hzero : n = 0
  · subst hzero
    exact Nat.le_trans (nearest_le (Nat.dvd_zero _) (Nat.le_refl 0)) (Nat.zero_le _)
  have hlog : n.log2 ≤ larger.log2 := (Nat.le_log2 (by omega)).mpr
    (Nat.le_trans (Nat.log2_self_le hzero) hle)
  rcases Nat.lt_or_eq_of_le hlog with hlt | heq
  · calc nearest n 1 ≤ 2 ^ (n.log2 + 1) :=
          nearest_le (Nat.pow_dvd_pow 2 (by omega)) (Nat.le_of_lt Nat.lt_log2_self)
      _ ≤ 2 ^ larger.log2 := Nat.pow_le_pow_right (by decide) hlt
      _ ≤ nearest larger 1 :=
          le_nearest (Nat.pow_dvd_pow 2 (by omega)) (Nat.log2_self_le (by omega))
  · have hstep : roundingStep n = roundingStep larger := by rw [roundingStep, roundingStep, heq]
    rw [nearest_one, nearest_one, hstep]
    exact Nat.mul_le_mul_right _ (roundQuotient_mono hle)

theorem nearest_error (n : Nat) :
    2 * n ≤ 2 * nearest n 1 + roundingStep n ∧ 2 * nearest n 1 ≤ 2 * n + roundingStep n := by
  obtain ⟨hbelow, habove⟩ := @roundQuotient_error n _ (roundingStep_pos n)
  rw [nearest_one]
  rw [Nat.add_mul, Nat.one_mul, Nat.mul_assoc] at hbelow
  rw [Nat.mul_assoc] at habove
  exact ⟨hbelow, habove⟩

end Nearest

/-! ## Integers as reals -/

/-- One is a power of two of units.  Its exponent is given to a general fact, so that the
power is never evaluated. -/
theorem exists_one_eq : ∃ k, 52 ≤ k ∧ one = 2 ^ k := by
  have hpow : ∀ k, 52 ≤ k → ∃ k', 52 ≤ k' ∧ Nat.pow 2 k = 2 ^ k' := fun k hk => ⟨k, hk, rfl⟩
  unfold one
  exact hpow 1074 (by decide)

theorem one_pos : 0 < one := by
  obtain ⟨k, -, hone⟩ := exists_one_eq
  exact hone ▸ Nat.two_pow_pos k

/-- An integer of `53 + k` bits is rounded in steps of `2 ^ k`. -/
theorem roundingStep_mul_one {m : Nat} (hm : m ≠ 0) :
    2 ^ 52 * roundingStep (m * one) = 2 ^ m.log2 * one := by
  obtain ⟨k, hk, hone⟩ := exists_one_eq
  have hne : m * one ≠ 0 := Nat.mul_ne_zero hm (Nat.ne_of_gt one_pos)
  have hlog : (m * one).log2 = m.log2 + k := by
    rw [Nat.log2_eq_iff hne, Nat.add_right_comm, Nat.pow_add, Nat.pow_add _ _ k, hone]
    exact ⟨Nat.mul_le_mul_right _ (Nat.log2_self_le hm),
      Nat.mul_lt_mul_of_pos_right Nat.lt_log2_self (Nat.two_pow_pos k)⟩
  have hlength : 52 + (m.log2 + k - 52) = m.log2 + k := by omega
  rw [roundingStep, hlog, hone, ← Nat.pow_add, ← Nat.pow_add, hlength]

/-- An integer that is a multiple of a power of two is a real if it has no more than
53 bits without it. -/
theorem nearest_mul_one_of_dvd {m k : Nat} (hlog : m.log2 ≤ 52 + k) (hdvd : 2 ^ k ∣ m) :
    nearest (m * one) 1 = m * one := by
  refine nearest_of_dvd ?_
  by_cases hm : m = 0
  · rw [hm, Nat.zero_mul]
    exact Nat.dvd_zero _
  · have hstep : roundingStep (m * one) ∣ 2 ^ k * one := by
      have hlength : 2 ^ m.log2 * one ∣ 2 ^ 52 * (2 ^ k * one) := by
        rw [← Nat.mul_assoc, ← Nat.pow_add]
        exact Nat.mul_dvd_mul_right (Nat.pow_dvd_pow 2 hlog) one
      rw [← roundingStep_mul_one hm] at hlength
      exact Nat.dvd_of_mul_dvd_mul_left (Nat.two_pow_pos 52) hlength
    exact Nat.dvd_trans hstep (Nat.mul_dvd_mul_right hdvd one)

/-- Integers of 53 bits are exact. -/
theorem nearest_mul_one_of_le {m : Nat} (hm : m ≤ 2 ^ 53) : nearest (m * one) 1 = m * one := by
  rcases Nat.lt_or_eq_of_le hm with hlt | heq
  · refine nearest_mul_one_of_dvd (k := 0) ?_ (Nat.one_dvd m)
    by_cases hzero : m = 0
    · simp [hzero]
    · exact Nat.lt_succ_iff.mp ((Nat.log2_lt hzero).mpr hlt)
  · subst heq
    exact nearest_mul_one_of_dvd (k := 1) (by decide) (by decide)

/-- Integers of 64 bits are rounded in steps of no more than 1024. -/
theorem nearest_mul_one_error {m : Nat} (hm : m ≤ 2 ^ 63) :
    m * one ≤ nearest (m * one) 1 + 512 * one ∧ nearest (m * one) 1 ≤ m * one + 512 * one := by
  rcases Nat.lt_or_eq_of_le hm with hlt | heq
  · have hstep : roundingStep (m * one) ≤ 1024 * one := by
      by_cases hzero : m = 0
      · rw [hzero, Nat.zero_mul]
        exact Nat.succ_le_of_lt (Nat.mul_pos (by decide) one_pos)
      · have hlog : m.log2 ≤ 62 := Nat.lt_succ_iff.mp ((Nat.log2_lt hzero).mpr hlt)
        have hlength : 2 ^ m.log2 * one ≤ 2 ^ 62 * one :=
          Nat.mul_le_mul_right one (Nat.pow_le_pow_right (by decide) hlog)
        have hstep := roundingStep_mul_one hzero
        omega
    obtain ⟨hbelow, habove⟩ := nearest_error (m * one)
    omega
  · rw [heq, nearest_mul_one_of_dvd (k := 11) (by decide) (by decide)]
    omega

theorem value_ofInt_natCast (m : Nat) : (ofInt m).value = nearest (m * one) 1 := by
  rw [value, ofInt, if_neg (by simp)]
  rfl

theorem value_ofInt_neg (n : Int) : (ofInt (-n)).value = -(ofInt n).value := by
  have hzero : nearest 0 1 = 0 := nearest_of_dvd (Nat.dvd_zero _)
  rcases Int.lt_trichotomy n 0 with hneg | rfl | hpos
  · simp [value, ofInt, hneg, Int.not_lt.mpr (Int.le_of_lt hneg)]
  · simp [value, ofInt, hzero]
  · simp [value, ofInt, hpos, Int.not_lt.mpr (Int.le_of_lt hpos)]

/-- Integers keep their order as reals, though not always strictly. -/
theorem value_ofInt_mono {a b : Int} (hle : a ≤ b) : (ofInt a).value ≤ (ofInt b).value := by
  have hnat : ∀ {m k : Nat}, m ≤ k → (ofInt m).value ≤ (ofInt k).value := by
    intro m k hmk
    rw [value_ofInt_natCast, value_ofInt_natCast]
    exact Int.ofNat_le.mpr (nearest_mono (Nat.mul_le_mul_right one hmk))
  have hnonneg : ∀ m : Nat, 0 ≤ (ofInt m).value := by
    intro m
    rw [value_ofInt_natCast]
    exact Int.natCast_nonneg _
  rcases Int.eq_nat_or_neg a with ⟨m, rfl | rfl⟩ <;> rcases Int.eq_nat_or_neg b with ⟨k, rfl | rfl⟩
  · exact hnat (Int.ofNat_le.mp hle)
  · obtain ⟨rfl, rfl⟩ : m = 0 ∧ k = 0 := by omega
    exact Int.le_refl _
  · rw [value_ofInt_neg]
    exact Int.le_trans (Int.neg_nonpos_of_nonneg (hnonneg m)) (hnonneg k)
  · rw [value_ofInt_neg, value_ofInt_neg]
    exact Int.neg_le_neg (hnat (by omega))

theorem value_ofInt_of_le {n : Int} (hn : n.natAbs ≤ 2 ^ 53) : (ofInt n).value = n * one := by
  rcases Int.eq_nat_or_neg n with ⟨m, rfl | rfl⟩
  · rw [value_ofInt_natCast, nearest_mul_one_of_le (by simpa using hn), Int.natCast_mul]
  · rw [value_ofInt_neg, value_ofInt_natCast, nearest_mul_one_of_le (by simpa using hn),
      Int.natCast_mul, Int.neg_mul]

/-- An integer of 64 bits is moved by no more than 512. -/
theorem value_ofInt_error {n : Int} (hn : n.natAbs ≤ 2 ^ 63) :
    (n - 512) * one ≤ (ofInt n).value ∧ (ofInt n).value ≤ (n + 512) * one := by
  simp only [Int.sub_mul, Int.add_mul]
  rcases Int.eq_nat_or_neg n with ⟨m, rfl | rfl⟩
  · obtain ⟨hbelow, habove⟩ := @nearest_mul_one_error m (by simpa using hn)
    rw [value_ofInt_natCast, ← Int.natCast_mul]
    omega
  · obtain ⟨hbelow, habove⟩ := @nearest_mul_one_error m (by simpa using hn)
    rw [value_ofInt_neg, value_ofInt_natCast, Int.neg_mul, ← Int.natCast_mul]
    omega

/-- Whether two integers are different reals. -/
def Apart (a b : Int) : Prop := (ofInt a).value ≠ (ofInt b).value

instance (a b : Int) : Decidable (Apart a b) := inferInstanceAs (Decidable (_ ≠ _))

theorem apart_comm (a b : Int) : Apart a b ↔ Apart b a := ne_comm

/-- Reals next to two integers are in the order of the integers, unless they are one
real. -/
theorem isLess_ofInt_iff (a b : Int) : (ofInt a).isLess (ofInt b) ↔ a < b ∧ Apart a b := by
  rw [isLess, decide_eq_true_iff]
  constructor
  · intro hless
    have hlt : a < b := Int.not_le.mp fun hle =>
      absurd (value_ofInt_mono hle) (Int.not_le.mpr hless)
    exact ⟨hlt, Int.ne_of_lt hless⟩
  · rintro ⟨hlt, hapart⟩
    exact Int.lt_iff_le_and_ne.mpr ⟨value_ofInt_mono (Int.le_of_lt hlt), hapart⟩

/-- Two integers are told apart if one of them has no more than 53 bits, or if they
have no more than 64 and are more than 1024 apart. -/
theorem apart_of_lt {a b : Int} (hlt : a < b)
    (hfar : a.natAbs < 2 ^ 53 ∨ b.natAbs < 2 ^ 53 ∨
      (a.natAbs ≤ 2 ^ 63 ∧ b.natAbs ≤ 2 ^ 63 ∧ a + 1024 < b)) : Apart a b := by
  have hone : (0 : Int) < one := Int.natCast_pos.mpr one_pos
  refine Int.ne_of_lt ?_
  rcases hfar with hsmall | hsmall | ⟨ha, hb, hgap⟩
  · calc (ofInt a).value = a * one := value_ofInt_of_le (by omega)
      _ < (a + 1) * one := Int.mul_lt_mul_of_pos_right (by omega) hone
      _ = (ofInt (a + 1)).value := (value_ofInt_of_le (by omega)).symm
      _ ≤ (ofInt b).value := value_ofInt_mono (by omega)
  · calc (ofInt a).value ≤ (ofInt (b - 1)).value := value_ofInt_mono (by omega)
      _ = (b - 1) * one := value_ofInt_of_le (by omega)
      _ < b * one := Int.mul_lt_mul_of_pos_right (by omega) hone
      _ = (ofInt b).value := (value_ofInt_of_le (by omega)).symm
  · calc (ofInt a).value ≤ (a + 512) * one := (value_ofInt_error ha).2
      _ < (b - 512) * one := Int.mul_lt_mul_of_pos_right (by omega) hone
      _ ≤ (ofInt b).value := (value_ofInt_error hb).1

end Posl.Real64
