import Spreadsheet.Proofs.Decimal.Scaling

/-! # Signs and magnitudes
A finite double has a sign, as each of the two zeros has, and a **magnitude**. A product with a
double from one on and a quotient by one have the sign of the first number and round the exact
magnitude once; the product is infinite if that is too large. A number is rounded to a whole number
without an error in the last bit, and a half goes away from zero. -/

namespace Spreadsheet.Decimal

open Float.Model UnpackedFloat

/-- Whether a finite number has a minus sign, as one of the zeros has. -/
def isNegative (x : Float) : Bool :=
  match x.toModel.unpack with
  | .zero sign => sign == .negative
  | .finite sign _ _ _ => sign == .negative
  | _ => false

/-- The absolute value of a finite number. -/
def magnitude (x : Float) : ℚ :=
  match x.toModel.unpack with
  | .finite _ m e _ => m * 2 ^ e
  | _ => 0

variable {m n : Nat} {e k : Int} {x c : Float} {y : ℚ} {s : Sign} {hpos : 0 < m} {hn : 0 < n}

theorem isNegative_of_zero (h : x.toModel.unpack = .zero s) : isNegative x = (s == .negative) := by
  rw [isNegative, h]

theorem isNegative_of_unpack (h : x.toModel.unpack = .finite s m e hpos) :
    isNegative x = (s == .negative) := by
  rw [isNegative, h]

theorem magnitude_of_zero (h : x.toModel.unpack = .zero s) : magnitude x = 0 := by
  rw [magnitude, h]

theorem magnitude_of_unpack (h : x.toModel.unpack = .finite s m e hpos) :
    magnitude x = m * 2 ^ e := by
  rw [magnitude, h]

theorem magnitude_nonneg (x : Float) : 0 ≤ magnitude x := by
  unfold magnitude
  split
  · positivity
  · exact le_rfl

/-! ## Comparisons -/

theorem unpack_abs_of_zero (h : x.toModel.unpack = .zero s) :
    x.abs.toModel.unpack = .zero .positive := by
  change UnpackedFloat.unpack .binary64 (UnpackedFloat.pack .binary64 x.toModel.unpack.abs) = _
  rw [h]
  exact unpack_pack_zero .positive

theorem unpack_abs (h : x.toModel.unpack = .finite s m e hpos) :
    x.abs.toModel.unpack = .finite .positive m e hpos := by
  obtain ⟨hm, he⟩ := canonical_of_unpack h
  change UnpackedFloat.unpack .binary64 (UnpackedFloat.pack .binary64 x.toModel.unpack.abs) = _
  rw [h]
  exact unpack_pack hm he

/-- A smaller double is below the rounding interval of a larger one. -/
theorem mul_lt_low (hm : Canonical m e) (hc : Canonical n k) (h : e < k ∨ e = k ∧ m < n) :
    m * 2 ^ e < (n - halfGapBelow n k) * 2 ^ k :=
  (mul_lt_mul_of_pos_right (by linarith) (by positivity)).trans_le (high_le_low hm hc h)

/-- Doubles are ordered by their exponents and then by their significands. -/
theorem mul_le_mul_of_le (hc : Canonical n k) (hm : Canonical m e) (h : k < e ∨ k = e ∧ n ≤ m) :
    (n * 2 ^ k : ℚ) ≤ m * 2 ^ e := by
  have hpow : (0 : ℚ) < 2 ^ e := by positivity
  rcases h with hlt | ⟨rfl, hle⟩
  · have hgap := halfGapBelow_pos m e
    exact (mul_lt_low hc hm (.inl hlt)).le.trans
      (mul_le_mul_of_nonneg_right (by linarith) hpow.le)
  · exact mul_le_mul_of_nonneg_right (by exact_mod_cast hle) hpow.le

/-- **A number whose absolute value is below a double** has a magnitude below the rounding interval
of the double. -/
theorem magnitude_lt_low (hx : x.isFinite) (hc : c.toModel.unpack = .finite .positive n k hn)
    (h : x.abs < c) : magnitude x < (n - halfGapBelow n k) * 2 ^ k := by
  obtain ⟨hcanonical, -⟩ := canonical_of_unpack hc
  rcases isFinite_iff.1 hx with ⟨s, hzero⟩ | ⟨s, m, e, hpos, hunpack⟩
  · have hone : (1 : ℚ) ≤ n := by exact_mod_cast hn
    have hgap := halfGapBelow_le n k
    rw [magnitude_of_zero hzero]
    exact mul_pos (by linarith) (by positivity)
  · obtain ⟨hm, -⟩ := canonical_of_unpack hunpack
    rw [magnitude_of_unpack hunpack]
    exact mul_lt_low hm hcanonical ((lt_iff_of_unpack (unpack_abs hunpack) hc).1 h)

/-- **Any other number** has a magnitude that is not below the double. -/
theorem lt_or_le_magnitude (hx : x.isFinite) (hc : c.toModel.unpack = .finite .positive n k hn) :
    x.abs < c ∨ n * 2 ^ k ≤ magnitude x := by
  obtain ⟨hcanonical, -⟩ := canonical_of_unpack hc
  rcases isFinite_iff.1 hx with ⟨s, hzero⟩ | ⟨s, m, e, hpos, hunpack⟩
  · refine .inl (decide_eq_true_iff.2 ?_)
    change x.abs.toModel.unpack.lt c.toModel.unpack = true
    rw [unpack_abs_of_zero hzero, hc]
    rfl
  · obtain ⟨hm, -⟩ := canonical_of_unpack hunpack
    rw [lt_iff_of_unpack (unpack_abs hunpack) hc, magnitude_of_unpack hunpack]
    refine or_iff_not_imp_left.2 fun hnot => mul_le_mul_of_le hcanonical hm (by omega)

/-! ## Products and quotients -/

theorem two_zpow_le_of_canonical (hm : Canonical m e) : (2 : ℚ) ^ (-1074 : Int) ≤ m * 2 ^ e := by
  have hone : (1 : ℚ) ≤ m := by exact_mod_cast hm.pos
  exact (zpow_le_zpow_right₀ one_le_two hm.le).trans (le_mul_of_one_le_left (by positivity) hone)

/-- A finite double is not too large. -/
theorem lt_tooLarge_of_canonical (hm : Canonical m e) (he : e ≤ 971) :
    (m * 2 ^ e : ℚ) < tooLarge := by
  have hlt : (m : ℚ) + 1 ≤ 2 ^ 53 := by exact_mod_cast hm.lt
  exact mul_lt_mul (by linarith) (zpow_le_zpow_right₀ one_le_two he) (by positivity) (by norm_num)

/-- **The product with a double from one on** rounds the exact product, and it is infinite if that
rounds to too large an exponent. -/
theorem exists_unpack_mul (hx : x.toModel.unpack = .finite s m e hpos)
    (hc : c.toModel.unpack = .finite .positive n k hn) (hfull : 2 ^ 52 ≤ n)
    (hone : (1 : ℚ) ≤ n * 2 ^ k) :
    ∃ (m' : Nat) (e' : Int) (hm : Canonical m' e'), RoundsTo (m * 2 ^ e * (n * 2 ^ k)) m' e' ∧
      (x * c).toModel.unpack = if e' ≤ 971 then .finite s m' e' hm.pos else .infinity s := by
  obtain ⟨hm, -⟩ := canonical_of_unpack hx
  obtain ⟨m', e', hm', hrounds⟩ := exists_canonical_roundsTo
    ((two_zpow_le_of_canonical hm).trans (le_mul_of_one_le_right (by positivity) hone))
  -- the exact product of the significands is not short of bits, also where the first one is
  have hbits : 52 ≤ (m * n).log2 := by
    refine (Nat.le_log2 (Nat.mul_pos hpos hn).ne').2 ?_
    exact hfull.trans (Nat.le_mul_of_pos_left n hpos)
  refine ⟨m', e', hm', hrounds, ?_⟩
  change UnpackedFloat.unpack .binary64 (UnpackedFloat.pack .binary64
    (UnpackedFloat.mul .binary64 x.toModel.unpack c.toModel.unpack)) = _
  rw [hx, hc, mul_eq hm' hrounds hbits]
  split
  · exact unpack_pack hm' ‹_›
  · exact unpack_pack_of_lt hm' (by omega)

/-- **The quotient by a double from one on** rounds the exact quotient, with a full significand if
that is not tiny. -/
theorem exists_unpack_div (hx : x.toModel.unpack = .finite s m e hpos)
    (hc : c.toModel.unpack = .finite .positive n k hn) (hone : (1 : ℚ) ≤ n * 2 ^ k)
    (hlow : (2 : ℚ) ^ (-1022 : Int) ≤ m * 2 ^ e / (n * 2 ^ k)) :
    ∃ (m' : Nat) (e' : Int) (hm : Canonical m' e'), 2 ^ 52 ≤ m' ∧
      RoundsTo (m * 2 ^ e / (n * 2 ^ k)) m' e' ∧
      (x / c).toModel.unpack = .finite s m' e' hm.pos := by
  obtain ⟨hm, he⟩ := canonical_of_unpack hx
  obtain ⟨m', e', hm', hrounds⟩ := exists_canonical_roundsTo
    ((zpow_le_zpow_right₀ one_le_two (by decide)).trans hlow)
  have hsmaller : (m * 2 ^ e / (n * 2 ^ k) : ℚ) < tooLarge :=
    (div_le_self (by positivity) hone).trans_lt (lt_tooLarge_of_canonical hm he)
  refine ⟨m', e', hm', hrounds.full hm' hlow, hrounds, ?_⟩
  change UnpackedFloat.unpack .binary64 (UnpackedFloat.pack .binary64
    (UnpackedFloat.div .binary64 x.toModel.unpack c.toModel.unpack)) = _
  rw [hx, hc, div_eq hm' hrounds]
  exact unpack_pack hm' (hrounds.le_of_lt_tooLarge hm' hsmaller)

/-- **The error of one rounding** to a full significand is at most one part in `2 ^ 53`. -/
theorem RoundsTo.abs_sub_le (h : RoundsTo y m e) (hfull : 2 ^ 52 ≤ m) :
    |m * 2 ^ e - y| ≤ m * 2 ^ e / 2 ^ 53 := by
  have hfull' : (2 : ℚ) ^ 52 ≤ m := by exact_mod_cast hfull
  have hgap := halfGapBelow_le m e
  have hpow : (0 : ℚ) < 2 ^ e := by positivity
  have hlow : (m - 1 / 2) * 2 ^ e ≤ y :=
    (mul_le_mul_of_nonneg_right (by linarith) hpow.le).trans h.low
  have hhigh := h.high
  have herror : (1 / 2 * 2 ^ e : ℚ) ≤ m * 2 ^ e / 2 ^ 53 := by
    rw [mul_div_right_comm]
    exact mul_le_mul_of_nonneg_right (by linarith) hpow.le
  exact abs_sub_le_iff.2 ⟨by linarith, by linarith⟩

theorem unpack_mul_of_zero (hx : x.toModel.unpack = .zero s)
    (hc : c.toModel.unpack = .finite .positive n k hn) : (x * c).toModel.unpack = .zero s := by
  change UnpackedFloat.unpack .binary64 (UnpackedFloat.pack .binary64
    (UnpackedFloat.mul .binary64 x.toModel.unpack c.toModel.unpack)) = _
  rw [hx, hc]
  exact (unpack_pack_zero _).trans (congrArg _ (mul_positive s))

theorem unpack_div_of_zero (hx : x.toModel.unpack = .zero s)
    (hc : c.toModel.unpack = .finite .positive n k hn) : (x / c).toModel.unpack = .zero s := by
  change UnpackedFloat.unpack .binary64 (UnpackedFloat.pack .binary64
    (UnpackedFloat.div .binary64 x.toModel.unpack c.toModel.unpack)) = _
  rw [hx, hc]
  exact (unpack_pack_zero _).trans (congrArg _ (div_positive s))

theorem unpack_div_of_infinity (hx : x.toModel.unpack = .infinity s)
    (hc : c.toModel.unpack = .finite .positive n k hn) : (x / c).toModel.unpack = .infinity s := by
  change UnpackedFloat.unpack .binary64 (UnpackedFloat.pack .binary64
    (UnpackedFloat.div .binary64 x.toModel.unpack c.toModel.unpack)) = _
  rw [hx, hc]
  exact (unpack_pack_infinity _).trans (congrArg _ (div_positive s))

/-! ## Whole numbers -/

theorem roundHalfAway_of_zero (h : x.toModel.unpack = .zero s) : roundHalfAway x = x := by
  rw [roundHalfAway, h]
  exact (eq_of_unpack h).symm

theorem roundHalfAway_of_infinity (h : x.toModel.unpack = .infinity s) : roundHalfAway x = x := by
  rw [roundHalfAway, h]
  exact (eq_of_unpack h).symm

/-- The natural number nearest to a significand with bits after the point, a half going up. -/
theorem shiftRight_bounds (m k : Nat) :
    (((m >>> k + 1) >>> 1 : Nat) : ℚ) - 1 / 2 ≤ m * 2 ^ Int.negSucc k ∧
      (m * 2 ^ Int.negSucc k : ℚ) < ((m >>> k + 1) >>> 1 : Nat) + 1 / 2 := by
  rw [Nat.shiftRight_eq_div_pow, Nat.shiftRight_eq_div_pow, pow_one, zpow_negSucc, pow_succ]
  have hpow : (0 : ℚ) < 2 ^ k := by positivity
  have hlow : ((m / 2 ^ k : Nat) : ℚ) * 2 ^ k ≤ m := by
    exact_mod_cast Nat.div_mul_le_self m (2 ^ k)
  have hhigh : (m : ℚ) < ((m / 2 ^ k : Nat) + 1) * 2 ^ k := by
    exact_mod_cast Nat.lt_mul_of_div_lt (Nat.lt_succ_self _) (Nat.two_pow_pos k)
  have hhalf : (2 * ((m / 2 ^ k + 1) / 2 : Nat) : ℚ) ≤ (m / 2 ^ k : Nat) + 1 := by
    exact_mod_cast Nat.mul_div_le (m / 2 ^ k + 1) 2
  have hhalf' : ((m / 2 ^ k : Nat) + 1 : ℚ) ≤ 2 * ((m / 2 ^ k + 1) / 2 : Nat) + 1 := by
    exact_mod_cast (by omega : m / 2 ^ k + 1 ≤ 2 * ((m / 2 ^ k + 1) / 2) + 1)
  rw [← div_eq_mul_inv, le_div_iff₀ (by positivity), div_lt_iff₀ (by positivity)]
  constructor <;> nlinarith

/-- A natural number with the sign of a double, if it has at most 53 bits. -/
theorem unpack_normalize (hle : n ≤ 2 ^ 52) (s : Sign) (hround : x.toModel.unpack =
      UnpackedFloat.unpack .binary64 (UnpackedFloat.pack .binary64
        (.normalize .binary64 (s.apply n) 0 s))) :
    (n = 0 → x.toModel.unpack = .zero s) ∧
      (0 < n → ∃ (m : Nat) (e : Int) (hm : 0 < m),
        x.toModel.unpack = .finite s m e hm ∧ (m * 2 ^ e : ℚ) = n) := by
  constructor
  · rintro rfl
    rw [hround]
    cases s <;> rfl
  · intro hn
    obtain ⟨m, e, hm, -, he, hvalue, hnormal⟩ :=
      exists_normalize_eq s s hn (hle.trans_lt (by decide))
    refine ⟨m, e, hm.pos, ?_, hvalue⟩
    rw [hround, hnormal]
    exact unpack_pack hm (by omega)

/-- **A finite number is rounded to the nearest whole number**, a half going away from zero, and
keeps its sign. -/
theorem exists_unpack_roundHalfAway (h : x.toModel.unpack = .finite s m e hpos) :
    ∃ n : Nat, (n : ℚ) - 1 / 2 ≤ m * 2 ^ e ∧ (m * 2 ^ e : ℚ) < n + 1 / 2 ∧
      (n = 0 → (roundHalfAway x).toModel.unpack = .zero s) ∧
      (0 < n → ∃ (m' : Nat) (e' : Int) (hm : 0 < m'),
        (roundHalfAway x).toModel.unpack = .finite s m' e' hm ∧ (m' * 2 ^ e' : ℚ) = n) := by
  obtain ⟨hm, -⟩ := canonical_of_unpack h
  cases e with
  | ofNat k =>
    -- a whole number already
    have hself : roundHalfAway x = x := by
      rw [roundHalfAway, h]
      exact (eq_of_unpack h).symm
    have hvalue : ((m * 2 ^ k : Nat) : ℚ) = m * 2 ^ Int.ofNat k := by
      rw [Int.ofNat_eq_natCast, zpow_natCast]
      push_cast
      rfl
    refine ⟨m * 2 ^ k, by linarith, by linarith, fun hzero => ?_, fun _ => ?_⟩
    · exact absurd hzero (Nat.mul_pos hpos (Nat.two_pow_pos k)).ne'
    · exact ⟨m, _, hpos, hself.symm ▸ h, hvalue.symm⟩
  | negSucc k =>
    -- bits after the point: at most 52 are left of it, so that the whole number is exact
    obtain ⟨hlow, hhigh⟩ := shiftRight_bounds m k
    have hle : (m >>> k + 1) >>> 1 ≤ 2 ^ 52 := by
      have hshift : m >>> k ≤ m := Nat.shiftRight_le m k
      have hlt := hm.lt
      rw [Nat.shiftRight_eq_div_pow _ 1]
      omega
    have hround : (roundHalfAway x).toModel.unpack = UnpackedFloat.unpack .binary64
        (UnpackedFloat.pack .binary64 (.normalize .binary64
          (s.apply ((m >>> k + 1) >>> 1 : Nat)) 0 s)) := by
      rw [roundHalfAway, h]
      rfl
    exact ⟨_, hlow, hhigh, unpack_normalize hle s hround⟩

end Spreadsheet.Decimal
