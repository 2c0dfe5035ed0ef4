import Mathlib
import Spreadsheet.Decimal.Shortest

/-! # Rounding to doubles
A mantissa with its round bit and its sticky bit **represents** a rational number as exactly as
rounding needs it, and shifting it right halves that number. The significand and the exponent of a
finite double are **canonical** when they are the ones that its bits give; a rational number
**rounds to** them when it lies in their rounding interval, whose ends count for an even significand
and whose lower half is narrower below a power of two. Rounding gives the canonical significand and
exponent that the number rounds to. -/

namespace Spreadsheet.Decimal

open Float.Model UnpackedFloat

/-! ## Residual bits -/

/-- The mantissa is the whole part of the number, and its bits place the rest with respect to a
half. -/
def Represents (em : ExtendedMantissa) (z : ℚ) : Prop :=
  match em.roundBit, em.stickyBit with
  | false, false => z = em.mantissa
  | false, true => em.mantissa < z ∧ z < em.mantissa + 1 / 2
  | true, false => z = em.mantissa + 1 / 2
  | true, true => em.mantissa + 1 / 2 < z ∧ z < em.mantissa + 1

variable {em : ExtendedMantissa} {z : ℚ}

theorem mantissa_ofMantissaAndAccuracy (n : Nat) (accuracy : Accuracy) :
    (ExtendedMantissa.ofMantissaAndAccuracy n accuracy).mantissa = n := by
  cases accuracy with
  | exact => rfl
  | inexact order => cases order <;> rfl

/-- A natural number represents itself, at any exponent. -/
theorem represents_exact (n : Nat) (k : Int) :
    Represents (.ofMantissaAndAccuracy n .exact) ((n * 2 ^ k : ℚ) / 2 ^ k) :=
  mul_div_cancel_right₀ _ (zpow_ne_zero k two_ne_zero)

theorem Represents.le (h : Represents em z) : (em.mantissa : ℚ) ≤ z := by
  obtain ⟨m, round, sticky⟩ := em
  cases round <;> cases sticky <;> simp only [Represents] at h <;> linarith

theorem Represents.lt_add_one (h : Represents em z) : z < em.mantissa + 1 := by
  obtain ⟨m, round, sticky⟩ := em
  cases round <;> cases sticky <;> simp only [Represents] at h <;> linarith

/-- Shifting right by one bit halves the number. -/
theorem Represents.shiftRightOne (h : Represents em z) : Represents em.shiftRightOne (z / 2) := by
  obtain ⟨m, round, sticky⟩ := em
  have hm : ((m % 2 : Nat) : ℚ) + 2 * ((m / 2 : Nat) : ℚ) = m := by
    exact_mod_cast Nat.mod_add_div m 2
  have hbit : m % 2 = 0 ∨ m % 2 = 1 := Nat.mod_two_eq_zero_or_one m
  -- the bit that is shifted out becomes the round bit, and the others only say if all were zero
  rcases hbit with hbit | hbit <;> rw [hbit] at hm <;> push_cast at hm <;>
    cases round <;> cases sticky <;>
    simp only [Represents, ExtendedMantissa.shiftRightOne, hbit, bne_self_eq_false, Bool.or_self,
      Bool.or_true, Bool.or_false, show ((1 : Nat) != 0) = true from rfl] at h ⊢ <;>
    first
    | linarith
    | exact ⟨by linarith, by linarith⟩

/-- Shifting right by `n` bits divides the number by `2 ^ n`. -/
theorem Represents.shiftRight (h : Represents em z) (n : Nat) :
    Represents (em >>> n) (z / 2 ^ n) := by
  change Represents (n.repeat ExtendedMantissa.shiftRightOne em) _
  induction n with
  | zero => simpa only [Nat.repeat, pow_zero, div_one] using h
  | succ n ih =>
    rw [Nat.repeat, pow_succ, ← div_div]
    exact ih.shiftRightOne

/-- **Rounding the mantissa** gives the whole number nearest to the number that it represents, and
the even one of two that are equally near. -/
theorem Represents.roundedMantissa_eq (h : Represents em z) {n : Nat} (hlow : n - 1 / 2 ≤ z)
    (hhigh : z ≤ n + 1 / 2) (hodd : n % 2 = 1 → n - 1 / 2 < z ∧ z < n + 1 / 2) :
    em.roundedMantissa = n := by
  obtain ⟨m, round, sticky⟩ := em
  have hle : ∀ {a b : Nat}, (a : ℚ) < b + 1 → a ≤ b := fun hab =>
    Nat.le_of_lt_succ (by exact_mod_cast hab)
  cases round <;> cases sticky <;>
    simp only [Represents] at h <;>
    simp only [ExtendedMantissa.roundedMantissa, ExtendedMantissa.accuracy,
      Accuracy.roundToNearestEven]
  case false.false => exact Nat.le_antisymm (hle (by linarith)) (hle (by linarith))
  case false.true => exact Nat.le_antisymm (hle (by linarith)) (hle (by linarith))
  case true.false =>
    -- exactly between two whole numbers, so the nearest ones are these two and `n` is even
    have hlow' : m ≤ n := hle (by linarith)
    have hhigh' : n ≤ m + 1 := hle (by push_cast; linarith)
    have heven : n % 2 ≠ 1 := by
      intro hn
      obtain ⟨hlt, hgt⟩ := hodd hn
      have h1 : n ≤ m := hle (by linarith)
      have h2 : m + 1 ≤ n := hle (by push_cast; linarith)
      omega
    omega
  case true.true =>
    exact Nat.le_antisymm (hle (by push_cast; linarith)) (hle (by push_cast; linarith))

/-! ## Canonical doubles -/

/-- The significand and the exponent of a positive finite double, as its bits give them, up to a
bound on the exponent. -/
structure Canonical (m : Nat) (e : Int) : Prop where
  /-- The number is not zero. -/
  pos : 0 < m
  /-- The significand has at most 53 bits. -/
  lt : m < 2 ^ 53
  /-- The exponent is not below the least one. -/
  le : -1074 ≤ e
  /-- It has 53 bits unless the exponent is the least one. -/
  full : 2 ^ 52 ≤ m ∨ e = -1074

/-- Half the gap to the number below, in units of the last bit. -/
def halfGapBelow (m : Nat) (e : Int) : ℚ :=
  if m = 2 ^ 52 ∧ -1074 < e then 1 / 4 else 1 / 2

/-- The number lies in the rounding interval of `m · 2 ^ e`. -/
structure RoundsTo (y : ℚ) (m : Nat) (e : Int) : Prop where
  /-- It is not below the interval. -/
  low : (m - halfGapBelow m e) * 2 ^ e ≤ y
  /-- It is not above the interval. -/
  high : y ≤ (m + 1 / 2) * 2 ^ e
  /-- It is no end of the interval of an odd significand. -/
  odd : m % 2 = 1 → (m - halfGapBelow m e) * 2 ^ e < y ∧ y < (m + 1 / 2) * 2 ^ e

variable {m : Nat} {e : Int} {y : ℚ}

theorem halfGapBelow_le (m : Nat) (e : Int) : halfGapBelow m e ≤ 1 / 2 := by
  unfold halfGapBelow
  split <;> norm_num

theorem halfGapBelow_pos (m : Nat) (e : Int) : 0 < halfGapBelow m e := by
  unfold halfGapBelow
  split <;> norm_num

/-- A number rounds to itself. -/
theorem roundsTo_self (m : Nat) (e : Int) : RoundsTo (m * 2 ^ e) m e := by
  have hpow : (0 : ℚ) < 2 ^ e := by positivity
  have hgap := halfGapBelow_pos m e
  have hlow : ((m : ℚ) - halfGapBelow m e) * 2 ^ e < m * 2 ^ e :=
    mul_lt_mul_of_pos_right (by linarith) hpow
  have hhigh : (m : ℚ) * 2 ^ e < (m + 1 / 2) * 2 ^ e :=
    mul_lt_mul_of_pos_right (by linarith) hpow
  exact ⟨hlow.le, hhigh.le, fun _ => ⟨hlow, hhigh⟩⟩

/-- The exponent that a number with the given position of its first bit gets. -/
theorem targetExponent_eq (t : Int) :
    Format.binary64.targetExponent t = max (t - 53) (-1074) := rfl

/-- A mantissa and an exponent bound the number that they represent by powers of two. -/
theorem Represents.two_zpow_le (h : Represents em (y / 2 ^ e)) (hm : em.mantissa ≠ 0) :
    (2 : ℚ) ^ (totalExponent em.mantissa e - 1) ≤ y := by
  have hlog : ((2 : ℚ) ^ em.mantissa.log2) ≤ em.mantissa := by
    exact_mod_cast Nat.log2_self_le hm
  have hexponent : totalExponent em.mantissa e - 1 = (em.mantissa.log2 : Int) + e := by
    unfold totalExponent
    omega
  rw [hexponent, zpow_add₀ two_ne_zero, zpow_natCast]
  exact (le_div_iff₀ (by positivity)).1 (hlog.trans h.le)

theorem Represents.lt_two_zpow (h : Represents em (y / 2 ^ e)) :
    y < (2 : ℚ) ^ totalExponent em.mantissa e := by
  have hlog : (em.mantissa + 1 : ℚ) ≤ 2 ^ (em.mantissa.log2 + 1) := by
    exact_mod_cast Nat.lt_log2_self (n := em.mantissa)
  have hexponent : totalExponent em.mantissa e = ((em.mantissa.log2 + 1 : Nat) : Int) + e := rfl
  rw [hexponent, zpow_add₀ two_ne_zero, zpow_natCast]
  exact (div_lt_iff₀ (by positivity)).1 (h.lt_add_one.trans_le hlog)

/-- A number is below the power of two that its significand is below. -/
theorem RoundsTo.lt_two_zpow (h : RoundsTo y m e) (hm : Canonical m e) :
    y < (2 : ℚ) ^ (53 + e) := by
  have hlt : (m : ℚ) + 1 ≤ 2 ^ 53 := by exact_mod_cast hm.lt
  rw [zpow_add₀ two_ne_zero]
  refine h.high.trans_lt (mul_lt_mul_of_pos_right ?_ (by positivity))
  rw [show ((53 : Int)) = ((53 : Nat) : Int) from rfl, zpow_natCast]
  linarith

/-- A number that does not round to the least exponent is above the power of two below its
significand, and above the next one unless the significand is that power itself. -/
theorem RoundsTo.two_zpow_lt (h : RoundsTo y m e) (hm : Canonical m e) (he : e ≠ -1074) :
    (2 : ℚ) ^ (51 + e) < y ∧ (m ≠ 2 ^ 52 → (2 : ℚ) ^ (52 + e) < y) := by
  have hfull : 2 ^ 52 ≤ m := hm.full.resolve_right he
  have hgap := halfGapBelow_le m e
  have hpow : ∀ n : Nat, (2 : ℚ) ^ ((n : Int) + e) = 2 ^ n * 2 ^ e := fun n => by
    rw [zpow_add₀ two_ne_zero, zpow_natCast]
  constructor
  · have hfull' : (2 : ℚ) ^ 52 ≤ m := by exact_mod_cast hfull
    refine lt_of_lt_of_le ?_ h.low
    rw [show (51 : Int) = ((51 : Nat) : Int) from rfl, hpow]
    have hstep : (2 : ℚ) ^ 51 + 1 ≤ 2 ^ 52 := by norm_num
    exact mul_lt_mul_of_pos_right (by linarith) (by positivity)
  · intro hne
    have hfull' : (2 : ℚ) ^ 52 + 1 ≤ m := by
      exact_mod_cast Nat.lt_of_le_of_ne hfull (Ne.symm hne)
    refine lt_of_lt_of_le ?_ h.low
    rw [show (52 : Int) = ((52 : Nat) : Int) from rfl, hpow]
    refine mul_lt_mul_of_pos_right ?_ (by positivity)
    linarith

/-! ## Rounding -/

/-- Shifting to an exponent that is not below gives what represents the number there. -/
theorem represents_shiftToExponent {n : Nat} {k target : Int} {accuracy : Accuracy}
    (h : Represents (.ofMantissaAndAccuracy n accuracy) (y / 2 ^ k)) (hk : k ≤ target) :
    (shiftToExponent n k accuracy target).2 = target ∧
      Represents (shiftToExponent n k accuracy target).1 (y / 2 ^ target) := by
  have hamount : k + ((target - k).toNat : Int) = target := by
    rw [Int.toNat_of_nonneg (by omega)]
    omega
  refine ⟨hamount, ?_⟩
  have hdiv : y / 2 ^ target = y / 2 ^ k / 2 ^ (target - k).toNat := by
    rw [div_div, ← zpow_natCast, ← zpow_add₀ two_ne_zero, hamount]
  rw [hdiv]
  exact h.shiftRight _

/-- **The exponent that a number is rounded at** is that of the double it rounds to, or one less for
a number just below a power of two. -/
theorem targetExponent_of_roundsTo {k : Int} (hm : Canonical m e) (hy : RoundsTo y m e)
    (h : Represents em (y / 2 ^ k))
    (hk : k ≤ Format.binary64.targetExponent (totalExponent em.mantissa k)) :
    Format.binary64.targetExponent (totalExponent em.mantissa k) = e ∨
      Format.binary64.targetExponent (totalExponent em.mantissa k) = e - 1 ∧ m = 2 ^ 52 ∧
        -1074 < e ∧ y < 2 ^ (52 + e) := by
  have hle := hm.le
  have hupper := h.lt_two_zpow
  have hexponents : ∀ {a b : Int}, (2 : ℚ) ^ a < 2 ^ b → a < b :=
    (zpow_lt_zpow_iff_right₀ one_lt_two).1
  rw [targetExponent_eq] at hk ⊢
  generalize ht : totalExponent em.mantissa k = t at hk hupper ⊢
  have hbelow : max (t - 53) (-1074) ≤ e := by
    by_cases hzero : em.mantissa = 0
    · rw [hzero] at ht
      have : t = 1 + k := by rw [← ht]; rfl
      omega
    · have := hexponents ((ht ▸ h.two_zpow_le hzero).trans_lt (hy.lt_two_zpow hm))
      omega
  by_cases he : e = -1074
  · exact .inl (by omega)
  · obtain ⟨hlow, hlow'⟩ := hy.two_zpow_lt hm he
    have h51 := hexponents (hlow.trans hupper)
    by_cases hpower : m = 2 ^ 52
    · by_cases heq : max (t - 53) (-1074) = e
      · exact .inl heq
      · refine .inr ⟨by omega, hpower, by omega, hupper.trans_le ?_⟩
        exact zpow_le_zpow_right₀ one_le_two (by omega)
    · have h52 := hexponents ((hlow' hpower).trans hupper)
      exact .inl (by omega)

/-- A canonical significand is where rounding puts it. -/
theorem Canonical.shiftToTargetExponent_eq (h : Canonical m e) :
    shiftToTargetExponent .binary64 m e .exact = (⟨m, false, false⟩, e) := by
  have htarget : Format.binary64.targetExponent (totalExponent m e) = e := by
    have hle := h.le
    have hlt : m.log2 < 53 := (Nat.log2_lt h.pos.ne').2 h.lt
    rw [targetExponent_eq, totalExponent]
    rcases h.full with hfull | he
    · have : 52 ≤ m.log2 := (Nat.le_log2 h.pos.ne').2 hfull
      omega
    · omega
  rw [shiftToTargetExponent, htarget, shiftToExponent, Int.sub_self]
  exact congrArg (Prod.mk _) (Int.add_zero e)

/-- A significand that was rounded up to one bit too many is shifted once more. -/
theorem shiftToTargetExponent_two_pow (he : -1074 < e) :
    shiftToTargetExponent .binary64 (2 ^ 53) (e - 1) .exact = (⟨2 ^ 52, false, false⟩, e) := by
  have htarget : Format.binary64.targetExponent (totalExponent (2 ^ 53) (e - 1)) = e := by
    rw [targetExponent_eq, totalExponent, Nat.log2_two_pow]
    omega
  rw [shiftToTargetExponent, htarget, shiftToExponent,
    show e - (e - 1) = 1 by omega]
  exact congrArg (Prod.mk _) (Int.sub_add_cancel e 1)

/-- Rounding a number at an exponent to the whole number of units nearest to it, the even one of two
that are equally near, and shifting that to the canonical significand. -/
theorem roundWithAccuracy_of_nearest (sign : Sign) {n r : Nat} {k t : Int} {accuracy : Accuracy}
    (hm : Canonical m e) (h : Represents (.ofMantissaAndAccuracy n accuracy) (y / 2 ^ k))
    (hk : k ≤ t) (ht : Format.binary64.targetExponent (totalExponent n k) = t)
    (hlow : (r : ℚ) - 1 / 2 ≤ y / 2 ^ t) (hhigh : y / 2 ^ t ≤ r + 1 / 2)
    (hodd : r % 2 = 1 → (r : ℚ) - 1 / 2 < y / 2 ^ t ∧ y / 2 ^ t < r + 1 / 2)
    (hshift : shiftToTargetExponent .binary64 r t .exact = (⟨m, false, false⟩, e)) :
    roundWithAccuracy .binary64 sign n k accuracy = .finite sign m e hm.pos := by
  obtain ⟨hexponent, hrepresents⟩ := represents_shiftToExponent h hk
  have hrounded := hrepresents.roundedMantissa_eq hlow hhigh hodd
  unfold roundWithAccuracy
  rw [shiftToTargetExponent, ht]
  simp only [hexponent, hrounded, hshift]
  rw [dif_neg hm.pos.ne']

/-- **Rounding gives the canonical double that the number rounds to.** The mantissa must have enough
bits, so that its exponent is not above the one that it is rounded at. -/
theorem roundWithAccuracy_eq (sign : Sign) {n : Nat} {k : Int} {accuracy : Accuracy}
    (hm : Canonical m e) (hy : RoundsTo y m e)
    (h : Represents (.ofMantissaAndAccuracy n accuracy) (y / 2 ^ k))
    (hk : k ≤ Format.binary64.targetExponent (totalExponent n k)) :
    roundWithAccuracy .binary64 sign n k accuracy = .finite sign m e hm.pos := by
  have hmantissa := mantissa_ofMantissaAndAccuracy n accuracy
  have hpow : ∀ t : Int, (0 : ℚ) < 2 ^ t := fun t => by positivity
  have hgap := halfGapBelow_le m e
  rcases targetExponent_of_roundsTo hm hy h (hmantissa.symm ▸ hk) with ht | ⟨ht, rfl, he, hlt⟩ <;>
    rw [hmantissa] at ht
  · -- rounded at the canonical exponent, to the significand itself
    refine roundWithAccuracy_of_nearest sign hm h (ht ▸ hk) ht ?_
      ((div_le_iff₀ (hpow e)).2 hy.high) (fun hodd => ⟨?_, ?_⟩) hm.shiftToTargetExponent_eq
    · exact le_trans (by linarith) ((le_div_iff₀ (hpow e)).2 hy.low)
    · exact lt_of_le_of_lt (by linarith) ((lt_div_iff₀ (hpow e)).2 (hy.odd hodd).1)
    · exact (div_lt_iff₀ (hpow e)).2 (hy.odd hodd).2
  · -- rounded at the exponent below, up to the next power of two: in its units the lower end of the
    -- interval is a half below that power
    have hlow := hy.low
    rw [halfGapBelow, if_pos ⟨rfl, he⟩] at hlow
    have hunit : (2 : ℚ) ^ e = 2 * 2 ^ (e - 1) := by
      rw [← zpow_one_add₀ two_ne_zero, add_sub_cancel]
    have hupper : (2 : ℚ) ^ (52 + e) = 2 ^ 53 * 2 ^ (e - 1) := by
      rw [← zpow_natCast, ← zpow_add₀ two_ne_zero]
      exact congrArg _ (by push_cast; omega)
    rw [hupper] at hlt
    refine roundWithAccuracy_of_nearest sign hm h (ht ▸ hk) ht ?_ ?_
      (fun hodd => absurd hodd (by decide)) (shiftToTargetExponent_two_pow he)
    · rw [le_div_iff₀ (hpow _)]
      refine le_trans (le_of_eq ?_) hlow
      rw [hunit]
      push_cast
      linarith
    · rw [div_le_iff₀ (hpow _)]
      refine hlt.le.trans ?_
      exact mul_le_mul_of_nonneg_right (by push_cast; linarith) (hpow _).le

end Spreadsheet.Decimal
