import Spreadsheet.Decimal.Numeral
import Spreadsheet.Proofs.Decimal.Packing

/-! # Decimals are read as the nearest double
The double of a decimal `coefficient · 10 ^ exponent` is computed as one exact product or quotient
that is rounded once: for small coefficients and exponents a product or quotient of two doubles,
else one of natural numbers. Both ways give the canonical double that the decimal rounds to. The
double of a decimal is never negative. -/

namespace Spreadsheet.Decimal

open Float.Model UnpackedFloat

variable {m n n₁ n₂ : Nat} {e k k₁ k₂ : Int} {y : ℚ} {s : Sign}

/-! ## Products and quotients -/

/-- A mantissa of at least 53 bits has enough of them. -/
theorem le_targetExponent (h : 52 ≤ n.log2) :
    k ≤ Format.binary64.targetExponent (totalExponent n k) := by
  rw [targetExponent_eq, totalExponent]
  omega

theorem mul_positive (s : Sign) : s * .positive = s := by
  cases s <;> rfl

theorem div_positive (s : Sign) : s / .positive = s := by
  cases s <;> rfl

/-- **A product** with enough bits is rounded to the double that it rounds to. -/
theorem mul_eq {h₁ : 0 < n₁} {h₂ : 0 < n₂} (hm : Canonical m e)
    (hy : RoundsTo (n₁ * 2 ^ k₁ * (n₂ * 2 ^ k₂)) m e) (hbits : 52 ≤ (n₁ * n₂).log2) :
    UnpackedFloat.mul .binary64 (.finite s n₁ k₁ h₁) (.finite .positive n₂ k₂ h₂) =
      .finite s m e hm.pos := by
  change roundWithAccuracy .binary64 (s * .positive) _ _ _ = _
  rw [mul_positive]
  refine roundWithAccuracy_eq s hm hy ?_ (le_targetExponent hbits)
  have hvalue : (n₁ : ℚ) * 2 ^ k₁ * (n₂ * 2 ^ k₂) / 2 ^ (k₁ + k₂) = (n₁ * n₂ : Nat) := by
    rw [zpow_add₀ two_ne_zero, Nat.cast_mul]
    field_simp
  exact hvalue

/-- A whole quotient and what is left over represent the exact quotient. -/
theorem represents_quotient (n : Nat) {d : Nat} (hd : 0 < d) :
    Represents (.ofMantissaAndAccuracy (n / d) (accuracyOfFraction (n % d) d)) ((n : ℚ) / d) := by
  have hd' : (0 : ℚ) < d := by exact_mod_cast hd
  have hlt : ((n % d : Nat) : ℚ) < d := by exact_mod_cast Nat.mod_lt n hd
  have hsum : ((n / d : Nat) : ℚ) + (n % d : Nat) / d = n / d := by
    rw [eq_div_iff hd'.ne', add_mul, div_mul_cancel₀ _ hd'.ne']
    exact_mod_cast Nat.div_add_mod' n d
  have hrest : ((n % d : Nat) : ℚ) / d < 1 := (div_lt_one hd').2 hlt
  rw [accuracyOfFraction, ← hsum]
  split
  · rename_i hzero
    rw [hzero, Nat.cast_zero, zero_div, add_zero]
    rfl
  · rename_i hzero
    have hpos : (0 : ℚ) < (n % d : Nat) / d :=
      div_pos (by exact_mod_cast Nat.pos_of_ne_zero hzero) hd'
    cases hhalf : compare (2 * (n % d)) d with
    | lt =>
      have hlow : ((n % d : Nat) : ℚ) / d < 1 / 2 := by
        rw [div_lt_div_iff₀ hd' two_pos, mul_comm, one_mul]
        exact_mod_cast Nat.compare_eq_lt.1 hhalf
      exact ⟨by simpa [ExtendedMantissa.ofMantissaAndAccuracy] using hpos, by
        simpa [ExtendedMantissa.ofMantissaAndAccuracy] using hlow⟩
    | eq =>
      have heq : ((n % d : Nat) : ℚ) / d = 1 / 2 := by
        rw [div_eq_div_iff hd'.ne' two_ne_zero, mul_comm, one_mul]
        exact_mod_cast Nat.compare_eq_eq.1 hhalf
      rw [heq]
      rfl
    | gt =>
      have hhigh : 1 / 2 < ((n % d : Nat) : ℚ) / d := by
        rw [div_lt_div_iff₀ two_pos hd', one_mul, mul_comm]
        exact_mod_cast Nat.compare_eq_gt.1 hhalf
      exact ⟨by simpa [ExtendedMantissa.ofMantissaAndAccuracy] using hhigh, by
        simpa [ExtendedMantissa.ofMantissaAndAccuracy] using hrest⟩

/-- The position of its first bit bounds a number by powers of two. -/
theorem two_zpow_le_mul (hn : 0 < n) (k : Int) :
    (2 : ℚ) ^ (totalExponent n k - 1) ≤ n * 2 ^ k :=
  (represents_exact n k).two_zpow_le hn.ne'

theorem mul_lt_two_zpow (n : Nat) (k : Int) : (n * 2 ^ k : ℚ) < 2 ^ totalExponent n k :=
  (represents_exact n k).lt_two_zpow

/-- A quotient has as many bits as the first bits of its parts promise, or one less. -/
theorem two_zpow_lt_div (h₁ : 0 < n₁) (h₂ : 0 < n₂) (k₁ k₂ : Int) :
    (2 : ℚ) ^ (totalExponent n₁ k₁ - totalExponent n₂ k₂ - 1) < n₁ * 2 ^ k₁ / (n₂ * 2 ^ k₂) := by
  have hpos₁ : (0 : ℚ) < n₁ * 2 ^ k₁ := mul_pos (by exact_mod_cast h₁) (by positivity)
  have hpos₂ : (0 : ℚ) < n₂ * 2 ^ k₂ := mul_pos (by exact_mod_cast h₂) (by positivity)
  rw [sub_right_comm, zpow_sub₀ two_ne_zero, div_lt_div_iff₀ (by positivity) hpos₂]
  exact mul_lt_mul' (two_zpow_le_mul h₁ k₁) (mul_lt_two_zpow n₂ k₂) hpos₂.le hpos₁

/-- **A quotient** is rounded to the double that it rounds to. -/
theorem div_eq {h₁ : 0 < n₁} {h₂ : 0 < n₂} (hm : Canonical m e)
    (hy : RoundsTo (n₁ * 2 ^ k₁ / (n₂ * 2 ^ k₂)) m e) :
    UnpackedFloat.div .binary64 (.finite s n₁ k₁ h₁) (.finite .positive n₂ k₂ h₂) =
      .finite s m e hm.pos := by
  obtain ⟨bits, hbits⟩ : ∃ bits, bits = totalExponent n₁ k₁ - totalExponent n₂ k₂ := ⟨_, rfl⟩
  obtain ⟨target, htarget⟩ : ∃ target,
    target = min (k₁ - k₂) (Format.binary64.targetExponent bits) := ⟨_, rfl⟩
  obtain ⟨shifted, hshifted⟩ : ∃ shifted, shifted = n₁ <<< (k₁ - k₂ - target).toNat := ⟨_, rfl⟩
  have hdiv : UnpackedFloat.div .binary64 (.finite s n₁ k₁ h₁) (.finite .positive n₂ k₂ h₂) =
      roundWithAccuracy .binary64 s (shifted / n₂) target
        (accuracyOfFraction (shifted % n₂) n₂) := by
    rw [hshifted, htarget, hbits]
    cases s <;> rfl
  have hvalue : (n₁ * 2 ^ k₁ / (n₂ * 2 ^ k₂) : ℚ) / 2 ^ target = (shifted : ℚ) / n₂ := by
    have hamount : ((k₁ - k₂ - target).toNat : Int) = k₁ - k₂ - target :=
      Int.toNat_of_nonneg (by omega)
    rw [hshifted, Nat.shiftLeft_eq, Nat.cast_mul, Nat.cast_pow, Nat.cast_ofNat, ← zpow_natCast,
      hamount, zpow_sub₀ two_ne_zero, zpow_sub₀ two_ne_zero]
    field_simp
  have hrepresents : Represents (.ofMantissaAndAccuracy (shifted / n₂)
      (accuracyOfFraction (shifted % n₂) n₂)) ((n₁ * 2 ^ k₁ / (n₂ * 2 ^ k₂) : ℚ) / 2 ^ target) := by
    rw [hvalue]
    exact represents_quotient shifted h₂
  have hupper := hrepresents.lt_two_zpow
  rw [mantissa_ofMantissaAndAccuracy] at hupper
  have hlower := two_zpow_lt_div h₁ h₂ k₁ k₂
  rw [← hbits] at hlower
  have hmore := (zpow_lt_zpow_iff_right₀ one_lt_two).1 (hlower.trans hupper)
  rw [hdiv]
  refine roundWithAccuracy_eq s hm hy hrepresents ?_
  rw [targetExponent_eq] at htarget ⊢
  omega

/-! ## Decimals as natural numbers -/

/-- A number that rounds to a double other than zero is not too small. -/
theorem RoundsTo.two_zpow_le (hy : RoundsTo y m e) (hm : Canonical m e) :
    (2 : ℚ) ^ (-1075 : Int) ≤ y := by
  have hone : (1 : ℚ) ≤ m := by exact_mod_cast hm.pos
  have hgap := halfGapBelow_le m e
  calc (2 : ℚ) ^ (-1075 : Int) = 1 / 2 * 2 ^ (-1074 : Int) := by
        rw [show (-1075 : Int) = -1 + -1074 from rfl, zpow_add₀ two_ne_zero, zpow_neg_one, one_div]
    _ ≤ (m - halfGapBelow m e) * 2 ^ e :=
        mul_le_mul (by linarith) (zpow_le_zpow_right₀ one_le_two hm.le) (by positivity)
          (by linarith)
    _ ≤ y := hy.low

section

variable {c : Nat}

theorem RoundsTo.coefficient_pos (hy : RoundsTo (c * 10 ^ k) m e) (hm : Canonical m e) :
    0 < c := by
  refine Nat.pos_of_ne_zero fun hc => ?_
  have hsmall := hy.two_zpow_le hm
  rw [hc, Nat.cast_zero, zero_mul] at hsmall
  exact absurd hsmall (not_le.2 (by positivity))

/-- A decimal that rounds to a finite double has no huge power of ten. -/
theorem RoundsTo.le_of_coefficient (hy : RoundsTo (c * 10 ^ k) m e) (hm : Canonical m e)
    (he : e ≤ 971) : k ≤ 2048 := by
  by_contra hk
  have hone : (1 : ℚ) ≤ c := by exact_mod_cast hy.coefficient_pos hm
  have hten : (2 : ℚ) ^ k ≤ 10 ^ k := zpow_le_zpow_left₀ (by omega) two_pos.le (by norm_num)
  have hle : (2 : ℚ) ^ k ≤ c * 10 ^ k := hten.trans (le_mul_of_one_le_left (by positivity) hone)
  have := (zpow_lt_zpow_iff_right₀ one_lt_two).1 (hle.trans_lt (hy.lt_two_zpow hm))
  omega

/-- A decimal that rounds to a double other than zero has no tiny power of ten. -/
theorem RoundsTo.neg_le_of_coefficient (hy : RoundsTo (c * 10 ^ k) m e) (hm : Canonical m e) :
    -(2048 + (c.log2 : Int)) ≤ k := by
  by_contra hk
  obtain ⟨j, rfl⟩ : ∃ j : Nat, k = -j := ⟨(-k).toNat, by omega⟩
  have hten : (10 : ℚ) ^ (-j : Int) ≤ 2 ^ (-j : Int) := by
    rw [zpow_neg, zpow_neg, zpow_natCast, zpow_natCast]
    exact inv_anti₀ (by positivity) (pow_le_pow_left₀ two_pos.le (by norm_num) j)
  have hlt : (c : ℚ) * 10 ^ (-j : Int) < 2 ^ totalExponent c (-j) :=
    (mul_le_mul_of_nonneg_left hten (by positivity)).trans_lt (mul_lt_two_zpow c _)
  have := (zpow_lt_zpow_iff_right₀ one_lt_two).1 ((hy.two_zpow_le hm).trans_lt hlt)
  rw [totalExponent] at this
  omega

/-- **The exact product or quotient** of a decimal is rounded to the double that it rounds to. -/
theorem ofScientific_eq (hm : Canonical m e) (he : e ≤ 971) (hy : RoundsTo (c * 10 ^ k) m e) :
    UnpackedFloat.ofScientific .binary64 c k = .finite .positive m e hm.pos := by
  have hpos := hy.coefficient_pos hm
  have hbelow : ¬k > 2 ^ Format.binary64.exponentBits := not_lt.2 (hy.le_of_coefficient hm he)
  have habove : ¬k < -(2 ^ Format.binary64.exponentBits + (c.log2 : Int)) :=
    not_lt.2 (hy.neg_le_of_coefficient hm)
  rw [UnpackedFloat.ofScientific, dif_neg hpos.ne', if_neg hbelow, if_neg habove]
  split
  · rename_i hk
    obtain ⟨j, rfl⟩ : ∃ j : Nat, k = j := ⟨k.toNat, by omega⟩
    have hvalue : (c * 10 ^ (j : Int) : ℚ) =
        (c <<< 53 : Nat) * 2 ^ (-53 : Int) * ((10 ^ j : Nat) * 2 ^ (0 : Int)) := by
      rw [Nat.shiftLeft_eq, Nat.cast_mul, Nat.cast_pow, Nat.cast_pow, Nat.cast_ofNat,
        Nat.cast_ofNat, zpow_natCast, zpow_neg, zpow_zero, mul_one]
      exact congrArg (· * _) (mul_inv_cancel_right₀ (by positivity) _).symm
    have hbits : 52 ≤ ((c <<< 53) * 10 ^ j).log2 := by
      rw [Nat.shiftLeft_eq]
      refine (Nat.le_log2 (by positivity)).2 ?_
      calc 2 ^ 52 ≤ 1 * 2 ^ 53 * 1 := by norm_num
        _ ≤ c * 2 ^ 53 * 10 ^ j :=
          Nat.mul_le_mul (Nat.mul_le_mul_right _ hpos) (Nat.one_le_pow _ _ (by decide))
    exact mul_eq hm (hvalue ▸ hy) hbits
  · rename_i hk
    obtain ⟨j, rfl⟩ : ∃ j : Nat, k = -j := ⟨(-k).toNat, by omega⟩
    have hvalue : (c * 10 ^ (-j : Int) : ℚ) =
        c * 2 ^ (0 : Int) / ((10 ^ j : Nat) * 2 ^ (0 : Int)) := by
      push_cast
      rw [zpow_neg, zpow_natCast, mul_one, mul_one, div_eq_mul_inv]
    have hnat : (-(-j : Int)).toNat = j := by omega
    simp only [hnat]
    exact div_eq hm (hvalue ▸ hy)

end

/-! ## Decimals as doubles -/

/-- The unpacked number is a full significand and an exponent, and is equal to a rational number. -/
def Exactly (f : UnpackedFloat) (q : ℚ) : Prop :=
  ∃ m e h, f = .finite .positive m e h ∧ (m * 2 ^ e : ℚ) = q ∧ 52 ≤ m.log2

/-- A significand of at most 53 bits is full once its first bit is moved to the 53rd place, and
canonical if the exponent is not too small for that. -/
theorem exists_canonical_shift (hpos : 0 < n) (hlt : n < 2 ^ 53) (hk : -1022 ≤ k) :
    ∃ j : Nat, n.log2 + j = 52 ∧ 2 ^ 52 ≤ n * 2 ^ j ∧ Canonical (n * 2 ^ j) (k - j) := by
  have hlog : n.log2 < 53 := (Nat.log2_lt hpos.ne').2 hlt
  obtain ⟨j, hj⟩ : ∃ j, n.log2 + j = 52 := ⟨52 - n.log2, by omega⟩
  have hlow : 2 ^ 52 ≤ n * 2 ^ j := by
    rw [← hj, pow_add]
    exact Nat.mul_le_mul_right _ (Nat.log2_self_le hpos.ne')
  have hhigh : n * 2 ^ j < 2 ^ 53 := by
    rw [show 53 = n.log2 + 1 + j by omega, pow_add]
    exact Nat.mul_lt_mul_of_pos_right Nat.lt_log2_self (by positivity)
  exact ⟨j, hj, hlow, by positivity, hhigh, by omega, .inl hlow⟩

theorem mul_two_pow_mul_zpow_sub (n j : Nat) (k : Int) :
    ((n * 2 ^ j : Nat) * 2 ^ (k - j) : ℚ) = n * 2 ^ k := by
  rw [zpow_sub₀ two_ne_zero, zpow_natCast]
  push_cast
  field_simp

/-- A significand whose first bit is moved to the 53rd place is rounded to itself. -/
theorem round_eq {j : Nat} (s : Sign) (hj : n.log2 + j = 52) (hm : Canonical (n * 2 ^ j) (k - j)) :
    UnpackedFloat.round .binary64 s n k = .finite s (n * 2 ^ j) (k - j) hm.pos := by
  have hpos : 0 < n := Nat.pos_of_mul_pos_right hm.pos
  have htarget : Format.binary64.targetExponent (totalExponent n k) = k - j := by
    have hle := hm.le
    rw [targetExponent_eq, totalExponent]
    omega
  have hdecrease : decreaseExponent n k (k - j) = (n * 2 ^ j, k - (j : Int)) := by
    have hamount : (k - (k - (j : Int))).toNat = j := by omega
    rw [decreaseExponent, hamount, Nat.shiftLeft_eq]
  have hfull : 52 ≤ (n * 2 ^ j).log2 := by
    refine (Nat.le_log2 hm.pos.ne').2 ?_
    rw [← hj, pow_add]
    exact Nat.mul_le_mul_right _ (Nat.log2_self_le hpos.ne')
  simp only [UnpackedFloat.round, htarget, hdecrease]
  exact roundWithAccuracy_eq s hm (roundsTo_self _ _) (represents_exact _ _)
    (le_targetExponent hfull)

/-- A natural number of at most 53 bits is rounded to itself. -/
theorem exists_normalize_eq (s zeroSign : Sign) (hpos : 0 < n) (hlt : n < 2 ^ 53) :
    ∃ (m : Nat) (e : Int) (hm : Canonical m e), 2 ^ 52 ≤ m ∧ e ≤ 0 ∧ (m * 2 ^ e : ℚ) = n ∧
      UnpackedFloat.normalize .binary64 (s.apply n) 0 zeroSign = .finite s m e hm.pos := by
  obtain ⟨j, hj, hfull, hm⟩ := exists_canonical_shift hpos hlt (by decide : -1022 ≤ (0 : Int))
  have hround := round_eq s hj hm
  refine ⟨_, _, hm, hfull, by omega, ?_, ?_⟩
  · rw [mul_two_pow_mul_zpow_sub, zpow_zero, mul_one]
  · rw [UnpackedFloat.normalize]
    cases s with
    | negative =>
      have hcompare : compare (-(n : Int)) 0 = .lt := Int.compare_eq_lt.2 (by omega)
      simp only [Sign.apply, hcompare, neg_neg, Int.toNat_natCast, hround]
    | positive =>
      have hcompare : compare (n : Int) 0 = .gt := Int.compare_eq_gt.2 (by omega)
      simp only [Sign.apply, hcompare, Int.toNat_natCast, hround]

/-- A natural number of at most 53 bits is exact as a double. -/
theorem exactly_toFloat (hpos : 0 < n) (hlt : n < 2 ^ 53) :
    Exactly n.toUInt64.toFloat.toModel.unpack n := by
  obtain ⟨m, e, hm, hfull, he, hvalue, hnormal⟩ := exists_normalize_eq .positive .positive hpos hlt
  have hword : n.toUInt64.toNat = n := by
    rw [Nat.toUInt64_eq, UInt64.toNat_ofNat', Nat.mod_eq_of_lt (hlt.trans (by decide))]
  refine ⟨m, e, hm.pos, ?_, hvalue, (Nat.le_log2 hm.pos.ne').2 hfull⟩
  change UnpackedFloat.unpack .binary64
    (UnpackedFloat.pack .binary64 (UnpackedFloat.ofNat .binary64 n.toUInt64.toNat)) = _
  have hofNat : UnpackedFloat.ofNat .binary64 n = .finite .positive m e hm.pos := hnormal
  rw [hword, hofNat, unpack_pack hm (by omega)]

/-- Whether the unpacked number is a full significand and an exponent that make up a power of
ten. -/
def isPowerOfTen (i : Nat) : UnpackedFloat → Bool
  | .finite .positive m e _ => m * 2 ^ e.toNat = 10 ^ i * 2 ^ (-e).toNat ∧ 52 ≤ m.log2
  | _ => false

theorem isPowerOfTen_exactlyRepresentable : ∀ i : Fin 23,
    isPowerOfTen i (Float.exactlyRepresentablePowersOfTen[i]).toModel.unpack = true := by
  decide +kernel

/-- The small powers of ten are exact as doubles. -/
theorem exactly_exactlyRepresentable {i : Nat} (hi : i < Float.exactlyRepresentablePowersOfTen.size) :
    Exactly Float.exactlyRepresentablePowersOfTen[i].toModel.unpack (10 ^ i) := by
  have h := isPowerOfTen_exactlyRepresentable ⟨i, hi⟩
  change isPowerOfTen i Float.exactlyRepresentablePowersOfTen[i].toModel.unpack = true at h
  generalize Float.exactlyRepresentablePowersOfTen[i].toModel.unpack = f at h
  unfold isPowerOfTen at h
  split at h
  · rename_i m e hpos
    obtain ⟨hvalue, hfull⟩ := of_decide_eq_true h
    refine ⟨m, e, hpos, rfl, ?_, hfull⟩
    have hsplit : e = (e.toNat : Int) - ((-e).toNat : Int) := by omega
    rw [hsplit, zpow_sub₀ two_ne_zero, zpow_natCast, zpow_natCast, ← mul_div_assoc,
      div_eq_iff (by positivity)]
    exact_mod_cast hvalue
  · exact nomatch h

/-- A decimal is rounded once, whether its parts are exact as doubles or not. -/
theorem float_ofScientific_eq {c j : Nat} {negative : Bool} (hm : Canonical m e) (he : e ≤ 971)
    (hk : k = if negative then -(j : Int) else j) (hy : RoundsTo (c * 10 ^ k) m e) :
    Float.ofScientific c negative j =
      Float.ofModel (Float.Model.pack (.finite .positive m e hm.pos)) := by
  have hpos := hy.coefficient_pos hm
  unfold Float.ofScientific
  split
  · rename_i hfast
    obtain ⟨n₁, k₁, h₁, hunpack₁, hvalue₁, hbits₁⟩ := exactly_toFloat hpos hfast.1
    have hj : j < Float.exactlyRepresentablePowersOfTen.size := Nat.lt_succ_of_le hfast.2
    obtain ⟨n₂, k₂, h₂, hunpack₂, hvalue₂, hbits₂⟩ := exactly_exactlyRepresentable hj
    cases negative with
    | true =>
      rw [hk, if_pos rfl, zpow_neg, zpow_natCast, ← div_eq_mul_inv, ← hvalue₁, ← hvalue₂] at hy
      change Float.ofModel (Float.Model.pack (UnpackedFloat.div .binary64 _ _)) = _
      rw [hunpack₁, hunpack₂, div_eq hm hy]
    | false =>
      rw [hk, if_neg Bool.false_ne_true, zpow_natCast, ← hvalue₁, ← hvalue₂] at hy
      have hbits : 52 ≤ (n₁ * n₂).log2 := by
        refine (Nat.le_log2 (by positivity)).2 ?_
        exact ((Nat.le_log2 h₁.ne').1 hbits₁).trans (Nat.le_mul_of_pos_right n₁ h₂)
      change Float.ofModel (Float.Model.pack (UnpackedFloat.mul .binary64 _ _)) = _
      rw [hunpack₁, hunpack₂, mul_eq hm hy hbits]
  · have hexponent : (if negative then Int.negOfNat j else Int.ofNat j) = k := by
      rw [hk]
      cases negative with
      | true => exact Int.negOfNat_eq
      | false => rfl
    dsimp only
    rw [hexponent, Float.Model.ofScientific, ofScientific_eq hm he hy]

/-- **A decimal is read as the double that it rounds to.** -/
theorem toDouble_eq {c : Nat} (hm : Canonical m e) (he : e ≤ 971)
    (hy : RoundsTo (c * 10 ^ k) m e) :
    toDouble c k = Float.ofModel (Float.Model.pack (.finite .positive m e hm.pos)) := by
  cases k with
  | ofNat j => exact float_ofScientific_eq hm he rfl hy
  | negSucc j => exact float_ofScientific_eq hm he (Int.negSucc_eq j) hy

/-! ## The sign of decimals -/

/-- Rounding keeps the sign. -/
theorem nonnegative_roundWithAccuracy (n : Nat) (k : Int) (accuracy : Accuracy) :
    Nonnegative (roundWithAccuracy .binary64 .positive n k accuracy) := by
  unfold roundWithAccuracy
  dsimp only
  split
  · exact .zero
  · exact .finite _

/-- A product with a positive number keeps the sign. -/
theorem Nonnegative.mul {f : UnpackedFloat} (hf : Nonnegative f) {hn : 0 < n} :
    Nonnegative (UnpackedFloat.mul .binary64 f (.finite .positive n k hn)) := by
  cases hf with
  | infinity => exact .infinity
  | zero => exact .zero
  | finite => exact nonnegative_roundWithAccuracy _ _ _

/-- A quotient by a positive number keeps the sign. -/
theorem Nonnegative.div {f : UnpackedFloat} (hf : Nonnegative f) {hn : 0 < n} :
    Nonnegative (UnpackedFloat.div .binary64 f (.finite .positive n k hn)) := by
  cases hf with
  | infinity => exact .infinity
  | zero => exact .zero
  | finite => exact nonnegative_roundWithAccuracy _ _ _

/-- Natural numbers are not negative. -/
theorem nonnegative_ofNat (n : Nat) : Nonnegative (UnpackedFloat.ofNat .binary64 n) := by
  rw [UnpackedFloat.ofNat, UnpackedFloat.ofInt, UnpackedFloat.normalize]
  split
  · rename_i hlt
    exact absurd (Int.compare_eq_lt.1 hlt) (by omega)
  · exact .zero
  · exact nonnegative_roundWithAccuracy _ _ _

theorem nonnegative_ofScientific (c : Nat) (k : Int) :
    Nonnegative (UnpackedFloat.ofScientific .binary64 c k) := by
  unfold UnpackedFloat.ofScientific
  split
  · exact .zero
  · split
    · exact .infinity
    · split
      · exact .zero
      · split <;> exact nonnegative_roundWithAccuracy _ _ _

/-- **A decimal is read as a double that is not negative.** -/
theorem nonnegative_toDouble (c : Nat) (k : Int) : Nonnegative (toDouble c k).toModel.unpack := by
  have hscientific : ∀ (negative : Bool) (j : Nat),
      Nonnegative (Float.ofScientific c negative j).toModel.unpack := by
    intro negative j
    unfold Float.ofScientific
    split
    · rename_i hfast
      have hj : j < Float.exactlyRepresentablePowersOfTen.size := Nat.lt_succ_of_le hfast.2
      obtain ⟨n, k, h, hunpack, -⟩ := exactly_exactlyRepresentable hj
      have hfactor : Nonnegative c.toUInt64.toFloat.toModel.unpack :=
        (nonnegative_ofNat c.toUInt64.toNat).unpack_pack
      cases negative with
      | true =>
        change Nonnegative (UnpackedFloat.unpack .binary64
          (UnpackedFloat.pack .binary64 (UnpackedFloat.div .binary64 _ _)))
        rw [hunpack]
        exact hfactor.div.unpack_pack
      | false =>
        change Nonnegative (UnpackedFloat.unpack .binary64
          (UnpackedFloat.pack .binary64 (UnpackedFloat.mul .binary64 _ _)))
        rw [hunpack]
        exact hfactor.mul.unpack_pack
    · exact (nonnegative_ofScientific c _).unpack_pack
  cases k with
  | ofNat j => exact hscientific false j
  | negSucc j => exact hscientific true (j + 1)

end Spreadsheet.Decimal
