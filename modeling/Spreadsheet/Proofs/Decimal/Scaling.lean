import Spreadsheet.Json.Read
import Spreadsheet.Proofs.Decimal.Exponents

/-! # Significands scaled by powers of ten
The reader of JSON numbers rounds a significand, a power of ten and their product one after another,
and refuses a product that is too large. Each rounding adds at most one part in `2 ^ 52`, so a
decimal that is a few units of the last bit below the first number that is **too large** for a
double is not refused. The shortest decimals of the greatest doubles are not refused either, and so
none is. The digits of a shortest decimal always fit a 64-bit word. -/

namespace Spreadsheet.Decimal

open Float.Model UnpackedFloat

variable {m : Nat} {e : Int} {y z : ℚ}

/-! ## Rounding exists -/

/-- The first number that is too large: half a unit of the last bit above the greatest double. -/
def tooLarge : ℚ := (2 ^ 53 - 1 / 2) * 2 ^ (971 : Int)

theorem tooLarge_lt : tooLarge < 2 ^ (1024 : Int) := by
  rw [show (1024 : Int) = 53 + 971 from rfl, zpow_add₀ two_ne_zero]
  exact mul_lt_mul_of_pos_right (by norm_num) (by positivity)

/-- There is a natural number nearest to a number, and an even one of two that are. -/
theorem exists_nearest (hz : 0 ≤ z) : ∃ r : Nat, (r : ℚ) - 1 / 2 ≤ z ∧ z ≤ r + 1 / 2 ∧
    (r % 2 = 1 → (r : ℚ) - 1 / 2 < z ∧ z < r + 1 / 2) := by
  obtain ⟨n, hn⟩ : ∃ n : Nat, n = ⌊z⌋₊ := ⟨_, rfl⟩
  have hlow : (n : ℚ) ≤ z := hn ▸ Nat.floor_le hz
  have hhigh : z < n + 1 := hn ▸ Nat.lt_floor_add_one z
  rcases lt_trichotomy z (n + 1 / 2) with hlt | heq | hgt
  · exact ⟨n, by linarith, hlt.le, fun _ => ⟨by linarith, hlt⟩⟩
  · -- between two natural numbers, of which one is even
    rcases Nat.mod_two_eq_zero_or_one n with heven | hodd
    · exact ⟨n, by linarith, heq.le, fun hodd => absurd hodd (by omega)⟩
    · refine ⟨n + 1, ?_, ?_, fun hodd' => absurd hodd' (by omega)⟩ <;> push_cast <;> linarith
  · refine ⟨n + 1, ?_, ?_, fun _ => ⟨?_, ?_⟩⟩ <;> push_cast <;> linarith

/-- A number of at most 53 bits before the point, and of just as many unless the exponent is the
least one, rounds at its exponent to the nearest significand, or to the power of two above. -/
theorem roundsTo_of_nearest {r : Nat} (he : -1074 ≤ e) (hone : 1 ≤ z)
    (hlow : -1074 < e → 2 ^ 52 ≤ z) (hhigh : z < 2 ^ 53) (hbelow : (r : ℚ) - 1 / 2 ≤ z)
    (habove : z ≤ r + 1 / 2) (hodd : r % 2 = 1 → (r : ℚ) - 1 / 2 < z ∧ z < r + 1 / 2) :
    (Canonical r e ∧ RoundsTo (z * 2 ^ e) r e) ∨
      Canonical (2 ^ 52) (e + 1) ∧ RoundsTo (z * 2 ^ e) (2 ^ 52) (e + 1) := by
  have hpow : (0 : ℚ) < 2 ^ e := by positivity
  have hpos : 0 < r := by
    have : (0 : ℚ) < r := by linarith
    exact_mod_cast this
  have hle : -1074 < e → 2 ^ 52 ≤ r := by
    intro h
    have : (2 ^ 52 : ℚ) < r + 1 := by linarith [hlow h]
    exact Nat.le_of_lt_succ (by exact_mod_cast this)
  have hge : r ≤ 2 ^ 53 := by
    have : (r : ℚ) < 2 ^ 53 + 1 := by linarith
    exact Nat.le_of_lt_succ (by exact_mod_cast this)
  rcases Nat.lt_or_eq_of_le hge with hlt | rfl
  · -- the interval below is narrow at a power of two, where the number is not below
    have hgap : (r : ℚ) - halfGapBelow r e ≤ z := by
      unfold halfGapBelow
      split
      · rename_i h
        rw [h.1]
        push_cast
        linarith [hlow h.2]
      · exact hbelow
    refine .inl ⟨⟨hpos, hlt, he, by omega⟩, ?_, ?_, fun h => ⟨?_, ?_⟩⟩
    · exact mul_le_mul_of_nonneg_right hgap hpow.le
    · exact mul_le_mul_of_nonneg_right habove hpow.le
    · have hne : ¬ (r = 2 ^ 52 ∧ -1074 < e) := by omega
      rw [halfGapBelow, if_neg hne]
      exact mul_lt_mul_of_pos_right (hodd h).1 hpow
    · exact mul_lt_mul_of_pos_right (hodd h).2 hpow
  · refine .inr ⟨⟨by decide, by decide, by omega, .inl le_rfl⟩, ?_, ?_,
      fun h => absurd h (by decide)⟩
    · rw [halfGapBelow, if_pos ⟨rfl, by omega⟩, zpow_add_one₀ two_ne_zero]
      push_cast at hbelow ⊢
      nlinarith
    · rw [zpow_add_one₀ two_ne_zero]
      push_cast
      nlinarith

/-- **Every number that is not tiny rounds** to a significand and an exponent. -/
theorem exists_canonical_roundsTo (hlow : (2 : ℚ) ^ (-1074 : Int) ≤ y) :
    ∃ m e, Canonical m e ∧ RoundsTo y m e := by
  have hy : 0 < y := lt_of_lt_of_le (by positivity) hlow
  -- at this exponent the number has 53 bits before the point, or less at the least one
  obtain ⟨e, he⟩ : ∃ e : Int, e = max (Int.log 2 y - 52) (-1074) := ⟨_, rfl⟩
  have hpow : (0 : ℚ) < 2 ^ e := by positivity
  have hpows : ∀ n : Nat, (2 : ℚ) ^ ((n : Int) + e) = 2 ^ n * 2 ^ e := fun n => by
    rw [zpow_add₀ two_ne_zero, zpow_natCast]
  obtain ⟨z, rfl⟩ : ∃ z, z * 2 ^ e = y := ⟨y / 2 ^ e, div_mul_cancel₀ y hpow.ne'⟩
  have hlog : (2 : ℚ) ^ Int.log 2 (z * 2 ^ e) ≤ z * 2 ^ e :=
    Int.zpow_log_le_self (b := 2) one_lt_two hy
  have hlog' : z * 2 ^ e < (2 : ℚ) ^ (Int.log 2 (z * 2 ^ e) + 1) :=
    Int.lt_zpow_succ_log_self (b := 2) one_lt_two (z * 2 ^ e)
  have hz : -1074 < e → 2 ^ 52 ≤ z := by
    intro h
    rw [show Int.log 2 (z * 2 ^ e) = ((52 : Nat) : Int) + e by omega, hpows] at hlog
    exact le_of_mul_le_mul_right hlog hpow
  have hz' : z < 2 ^ 53 := by
    have hlt := hlog'.trans_le (zpow_le_zpow_right₀ one_le_two
      (show Int.log 2 (z * 2 ^ e) + 1 ≤ ((53 : Nat) : Int) + e by omega))
    rw [hpows] at hlt
    exact lt_of_mul_lt_mul_right hlt hpow.le
  have hone : 1 ≤ z := by
    rcases (show -1074 ≤ e by omega).lt_or_eq with h | h
    · exact le_trans (by norm_num) (hz h)
    · rw [h] at hlow
      exact le_of_mul_le_mul_right (by rwa [one_mul]) hpow
  obtain ⟨r, hbelow, habove, hodd⟩ := exists_nearest (z := z) (by linarith)
  -- the nearest number may be the power of two above, which has the next exponent
  rcases roundsTo_of_nearest (by omega) hone hz hz' hbelow habove hodd with h | h
  · exact ⟨r, e, h⟩
  · exact ⟨2 ^ 52, e + 1, h⟩

/-- A number from the least full significand on rounds to a full significand. -/
theorem RoundsTo.full (h : RoundsTo y m e) (hm : Canonical m e)
    (hlow : (2 : ℚ) ^ (-1022 : Int) ≤ y) : 2 ^ 52 ≤ m := by
  by_contra hnot
  obtain rfl : e = -1074 := hm.full.resolve_left hnot
  have hle : (m : ℚ) + 1 ≤ 2 ^ 52 := by exact_mod_cast Nat.lt_of_not_le hnot
  have hhigh := h.high
  rw [show (-1022 : Int) = ((52 : Nat) : Int) + -1074 from rfl, zpow_add₀ two_ne_zero,
    zpow_natCast] at hlow
  exact absurd (le_of_mul_le_mul_right (hlow.trans hhigh) (by positivity)) (by linarith)

/-- A number that is too large is one above the interval of the greatest double. -/
theorem low_eq_tooLarge :
    (((2 ^ 52 : Nat) : ℚ) - halfGapBelow (2 ^ 52) 972) * 2 ^ (972 : Int) = tooLarge := by
  rw [halfGapBelow, if_pos (by decide), tooLarge, show (972 : Int) = 971 + 1 from rfl,
    zpow_add_one₀ two_ne_zero]
  generalize (2 : ℚ) ^ (971 : Int) = unit
  push_cast
  ring

theorem canonical_two_pow : Canonical (2 ^ 52) 972 := ⟨by decide, by decide, by decide, .inl le_rfl⟩

/-- **A number that is not too large** rounds to an exponent that a double can have. -/
theorem RoundsTo.le_of_lt_tooLarge (h : RoundsTo y m e) (hm : Canonical m e) (hlt : y < tooLarge) :
    e ≤ 971 := by
  have hfull := hm.full
  have := h.lt_of_lt_low hm canonical_two_pow (low_eq_tooLarge.symm ▸ hlt)
  omega

/-- **A number that is too large** rounds to an exponent that no double has. -/
theorem RoundsTo.lt_of_tooLarge_lt (h : RoundsTo y m e) (hm : Canonical m e) (hlt : tooLarge < y) :
    971 < e := by
  have := h.le_of_low_lt hm canonical_two_pow (low_eq_tooLarge.symm ▸ hlt)
  omega

/-- **A number that is neither tiny nor too large rounds to a double** with a full significand. -/
theorem exists_roundsTo (hlow : 1 / 4 ≤ y) (hhigh : y < tooLarge) :
    ∃ m e, Canonical m e ∧ 2 ^ 52 ≤ m ∧ e ≤ 971 ∧ RoundsTo y m e := by
  have hquarter : (2 : ℚ) ^ (-2 : Int) ≤ y := by
    rwa [show (2 : ℚ) ^ (-2 : Int) = 1 / 4 by norm_num]
  have hpows : ∀ {k : Int}, k ≤ -2 → (2 : ℚ) ^ k ≤ y := fun hk =>
    (zpow_le_zpow_right₀ one_le_two hk).trans hquarter
  obtain ⟨m, e, hm, hrounds⟩ := exists_canonical_roundsTo (y := y) (hpows (by decide))
  exact ⟨m, e, hm, hrounds.full hm (hpows (by decide)), hrounds.le_of_lt_tooLarge hm hhigh, hrounds⟩

/-! ## Errors -/

/-- Rounding adds at most one part in `2 ^ 52`. -/
theorem RoundsTo.mul_le (h : RoundsTo y m e) (hfull : 2 ^ 52 ≤ m) :
    (m * 2 ^ e : ℚ) * 2 ^ 52 ≤ y * (2 ^ 52 + 1) := by
  have hfull' : (2 : ℚ) ^ 52 ≤ m := by exact_mod_cast hfull
  have hgap := halfGapBelow_le m e
  calc (m * 2 ^ e : ℚ) * 2 ^ 52 = 2 ^ 52 * m * 2 ^ e := by ring
    _ ≤ (m - halfGapBelow m e) * (2 ^ 52 + 1) * 2 ^ e :=
        mul_le_mul_of_nonneg_right (by linarith) (by positivity)
    _ = (m - halfGapBelow m e) * 2 ^ e * (2 ^ 52 + 1) := by ring
    _ ≤ y * (2 ^ 52 + 1) := mul_le_mul_of_nonneg_right h.low (by positivity)

/-- Rounding does not halve a number. -/
theorem RoundsTo.le_two_mul (h : RoundsTo y m e) (hpos : 0 < m) : y ≤ 2 * (m * 2 ^ e) := by
  have hone : (1 : ℚ) ≤ m := by exact_mod_cast hpos
  have hpow : (0 : ℚ) < 2 ^ e := by positivity
  have := h.high
  nlinarith

/-- A product of two rounded numbers is not too large if theirs is a few units below. -/
theorem mul_lt_tooLarge {a b p q : ℚ} (hb : 0 ≤ b) (hp : 0 ≤ p)
    (hap : a * 2 ^ 52 ≤ p * (2 ^ 52 + 1)) (hbq : b * 2 ^ 52 ≤ q * (2 ^ 52 + 1))
    (hpq : p * q ≤ (2 ^ 53 - 11 / 2) * 2 ^ (971 : Int)) : a * b < tooLarge := by
  refine lt_of_mul_lt_mul_right (a := (2 : ℚ) ^ 52 * 2 ^ 52) ?_ (by positivity)
  calc a * b * (2 ^ 52 * 2 ^ 52) = a * 2 ^ 52 * (b * 2 ^ 52) := by ring
    _ ≤ p * (2 ^ 52 + 1) * (q * (2 ^ 52 + 1)) :=
        mul_le_mul hap hbq (by positivity) (by positivity)
    _ = p * q * (2 ^ 52 + 1) ^ 2 := by ring
    _ ≤ (2 ^ 53 - 11 / 2) * 2 ^ (971 : Int) * (2 ^ 52 + 1) ^ 2 :=
        mul_le_mul_of_nonneg_right hpq (by positivity)
    _ = (2 ^ 53 - 11 / 2) * (2 ^ 52 + 1) ^ 2 * 2 ^ (971 : Int) := mul_right_comm _ _ _
    _ < (2 ^ 53 - 1 / 2) * (2 ^ 52 * 2 ^ 52) * 2 ^ (971 : Int) :=
        mul_lt_mul_of_pos_right (by norm_num) (by positivity)
    _ = tooLarge * (2 ^ 52 * 2 ^ 52) := mul_right_comm _ _ _

/-! ## Scaling -/

theorem isInf_pack {s : Sign} (hm : Canonical m e) (he : e ≤ 971) :
    (Float.ofModel (Float.Model.pack (.finite s m e hm.pos))).isInf = false := by
  change UnpackedFloat.isInf (UnpackedFloat.unpack .binary64
    (UnpackedFloat.pack .binary64 (.finite s m e hm.pos))) = false
  rw [unpack_pack hm he]
  rfl

section

variable {c k : Nat} {j : Int}

/-- A decimal from one on that is not too large is read as a double with a full significand. -/
theorem exists_toDouble (hlow : (1 : ℚ) ≤ c * 10 ^ j) (hhigh : (c * 10 ^ j : ℚ) < tooLarge) :
    ∃ (m : Nat) (e : Int) (hm : Canonical m e), 2 ^ 52 ≤ m ∧ e ≤ 971 ∧ RoundsTo (c * 10 ^ j) m e ∧
      toDouble c j = Float.ofModel (Float.Model.pack (.finite .positive m e hm.pos)) := by
  obtain ⟨m, e, hm, hfull, he, hy⟩ := exists_roundsTo (by linarith) hhigh
  exact ⟨m, e, hm, hfull, he, hy, toDouble_eq hm he hy⟩

/-- A product of two decimals from one on is not infinite if it is far enough below the first number
that is too large. -/
theorem isInf_mul {c₁ c₂ : Nat} {j₁ j₂ : Int} (h₁ : (1 : ℚ) ≤ c₁ * 10 ^ j₁)
    (h₂ : (1 : ℚ) ≤ c₂ * 10 ^ j₂)
    (hhigh : (c₁ * 10 ^ j₁ * (c₂ * 10 ^ j₂) : ℚ) ≤ (2 ^ 53 - 11 / 2) * 2 ^ (971 : Int)) :
    (toDouble c₁ j₁ * toDouble c₂ j₂).isInf = false := by
  have hlarge : (c₁ * 10 ^ j₁ * (c₂ * 10 ^ j₂) : ℚ) < tooLarge :=
    hhigh.trans_lt (mul_lt_mul_of_pos_right (by norm_num) (by positivity))
  -- neither factor is too large, since the other one is not below one
  obtain ⟨m₁, e₁, hm₁, hfull₁, he₁, hy₁, hfactor₁⟩ :=
    exists_toDouble h₁ ((le_mul_of_one_le_right (by positivity) h₂).trans_lt hlarge)
  obtain ⟨m₂, e₂, hm₂, hfull₂, he₂, hy₂, hfactor₂⟩ :=
    exists_toDouble h₂ ((le_mul_of_one_le_left (by positivity) h₁).trans_lt hlarge)
  have hhalf₁ := hy₁.le_two_mul hm₁.pos
  have hhalf₂ := hy₂.le_two_mul hm₂.pos
  obtain ⟨m, e, hm, -, he, hy⟩ := exists_roundsTo (y := m₁ * 2 ^ e₁ * (m₂ * 2 ^ e₂))
    (by nlinarith) (mul_lt_tooLarge (by positivity) (by positivity) (hy₁.mul_le hfull₁)
      (hy₂.mul_le hfull₂) hhigh)
  -- the product has the bits to be rounded only once
  have hbits : 52 ≤ (m₁ * m₂).log2 := by
    refine (Nat.le_log2 (Nat.mul_pos hm₁.pos hm₂.pos).ne').2 ?_
    exact hfull₁.trans (Nat.le_mul_of_pos_right m₁ hm₂.pos)
  rw [hfactor₁, hfactor₂]
  change (Float.ofModel (Float.Model.pack (UnpackedFloat.mul .binary64
    (UnpackedFloat.unpack .binary64 (UnpackedFloat.pack .binary64 _))
    (UnpackedFloat.unpack .binary64 (UnpackedFloat.pack .binary64 _))))).isInf = false
  rw [unpack_pack hm₁ he₁, unpack_pack hm₂ he₂, mul_eq hm hy hbits]
  exact isInf_pack hm he

/-- The power of ten of a decimal that is not too large is one of those that a double can have. -/
theorem le_of_lt_tooLarge (hc : 0 < c) (h : (c * 10 ^ k : ℚ) < tooLarge) : k ≤ 308 := by
  by_contra hlt
  have hone : (1 : ℚ) ≤ c := by exact_mod_cast hc
  have hlarger : (2 : ℚ) ^ (1024 : Int) < 10 ^ 309 := by
    rw [show (1024 : Int) = ((1024 : Nat) : Int) from rfl, zpow_natCast]
    exact_mod_cast (by decide +kernel : 2 ^ 1024 < 10 ^ 309)
  have hle : (10 : ℚ) ^ 309 ≤ c * 10 ^ k :=
    (pow_le_pow_right₀ (by norm_num) (by omega)).trans
      (le_mul_of_one_le_left (by positivity) hone)
  exact absurd hle (not_le.2 (h.trans (tooLarge_lt.trans hlarger)))

/-- **A decimal that is far enough below the first number that is too large** is not refused. -/
theorem exists_scale?_natCast (hc : 0 < c)
    (hhigh : (c * 10 ^ k : ℚ) ≤ (2 ^ 53 - 11 / 2) * 2 ^ (971 : Int)) :
    ∃ x, Json.scale? c k = some x := by
  have hone : (1 : ℚ) ≤ c := by exact_mod_cast hc
  have hten : (1 : ℚ) ≤ 10 ^ k := one_le_pow₀ (by norm_num)
  have hk : k ≤ 308 := le_of_lt_tooLarge hc
    (hhigh.trans_lt (mul_lt_mul_of_pos_right (by norm_num) (by positivity)))
  have hfinite : (toDouble c (0 : Nat) * toDouble 1 (k : Nat)).isInf = false := by
    refine isInf_mul ?_ ?_ ?_ <;> simpa
  refine ⟨toDouble c (0 : Nat) * toDouble 1 (k : Nat), ?_⟩
  change (if k ≤ 308 then if (toDouble c (0 : Nat) * toDouble 1 (k : Nat)).isInf then _ else _
    else _) = _
  rw [if_pos hk, hfinite, if_neg Bool.false_ne_true]
  rfl

end

/-! ## Shortest decimals -/

namespace Interval

variable {i : Interval} {tie : Tie} {c k n : Nat}

/-- What the search takes from a grid is next to the number. -/
theorem le_of_nearestMultiple? (h : i.nearestMultiple? tie k = some c) :
    c ≤ i.value / Nat.pow 10 k + 1 := by
  rcases nearestMultiple?_cases h with ⟨rfl, -⟩ | ⟨rfl, -⟩
  · exact Nat.le_succ _
  · exact Nat.le_refl _

/-- An interval that meets no grid is not wider than its steps. -/
theorem high_le_of_nearestMultiple?_eq_none (hlow : i.low < i.value) (hhigh : i.value < i.high)
    (h : i.nearestMultiple? tie k = none) : i.high ≤ i.low + Nat.pow 10 k := by
  obtain ⟨hbelow, habove⟩ := not_contains_of_nearestMultiple?_eq_none h
  have hle := Nat.div_mul_le_self i.value (Nat.pow 10 k)
  have hlt : i.value < (i.value / Nat.pow 10 k + 1) * Nat.pow 10 k :=
    Nat.lt_mul_of_div_lt (Nat.lt_succ_self _) (Nat.pow_pos (by decide))
  rw [Nat.succ_mul] at habove hlt
  generalize i.value / Nat.pow 10 k * Nat.pow 10 k = below at hbelow habove hle hlt
  generalize Nat.pow 10 k = step at habove hlt ⊢
  unfold contains at hbelow habove
  cases hclosed : i.closed <;> simp [hclosed] at hbelow habove <;> omega

/-- A number below its interval's width times a factor has few digits: the search finds a decimal
before its grid is finer than a tenth of the interval. -/
theorem coefficient_coarsest_le (hlow : i.low < i.value) (hhigh : i.value < i.high)
    (hwidth : 3 * i.value ≤ n * (i.high - i.low)) (h : i.nearestMultiple? tie (k + 1) = none) :
    3 * (i.coarsest tie k).coefficient ≤ 10 * n + 3 := by
  -- no member on the next grid means steps that are not finer than a tenth of the interval
  have hfew : ∀ {k}, i.nearestMultiple? tie (k + 1) = none →
      3 * (i.value / Nat.pow 10 k + 1) ≤ 10 * n + 3 := by
    intro k h
    have hstep : i.high - i.low ≤ 10 * Nat.pow 10 k := by
      have := high_le_of_nearestMultiple?_eq_none hlow hhigh h
      rw [Nat.pow_eq, Nat.pow_succ'] at this
      rw [Nat.pow_eq]
      omega
    have hvalue : 3 * i.value ≤ 10 * n * Nat.pow 10 k :=
      hwidth.trans ((Nat.mul_le_mul_left n hstep).trans_eq (by ring))
    have hdiv : 3 * (i.value / Nat.pow 10 k) * Nat.pow 10 k ≤ 10 * n * Nat.pow 10 k := by
      rw [Nat.mul_assoc]
      exact (Nat.mul_le_mul_left 3 (Nat.div_mul_le_self _ _)).trans hvalue
    have := Nat.le_of_mul_le_mul_right hdiv (Nat.pow_pos (by decide))
    omega
  induction k with
  | zero =>
    refine (Nat.mul_le_mul_left 3 ?_).trans (hfew h)
    rw [coarsest]
    cases hzero : i.nearestMultiple? tie 0 with
    | none =>
      rw [Option.getD_none, Nat.pow_eq, Nat.pow_zero, Nat.div_one]
      exact Nat.le_succ _
    | some c => exact le_of_nearestMultiple? hzero
  | succ k ih =>
    rw [coarsest]
    split
    · rename_i c hc
      exact (Nat.mul_le_mul_left 3 (le_of_nearestMultiple? hc)).trans (hfew h)
    · exact ih ‹_›

/-- No multiple of a power of ten above an interval lies in it. -/
theorem nearestMultiple?_eq_none (hpos : 0 < i.low) (hhigh : i.value < i.high)
    (h : i.high < Nat.pow 10 k) : i.nearestMultiple? tie k = none := by
  have hbelow : i.value / Nat.pow 10 k = 0 := Nat.div_eq_of_lt (by omega)
  have hcontains : i.contains 0 = false ∧ i.contains (Nat.pow 10 k) = false := by
    generalize Nat.pow 10 k = step at h
    unfold contains
    cases i.closed <;> simp <;> omega
  simp only [nearestMultiple?, hbelow, Nat.zero_mul, Nat.zero_add, Nat.one_mul, hcontains.1,
    hcontains.2]

/-- The search may start at any power of ten above an interval. -/
theorem coarsest_eq_of_le {j : Nat} (hpos : 0 < i.low) (hhigh : i.value < i.high)
    (h : i.high < Nat.pow 10 j) (hle : j ≤ k) : i.coarsest tie k = i.coarsest tie j := by
  induction k, hle using Nat.le_induction with
  | base => rfl
  | succ k hle ih =>
    have habove : i.high < Nat.pow 10 (k + 1) :=
      h.trans_le (Nat.pow_le_pow_right (by decide) (Nat.le_succ_of_le hle))
    rw [coarsest, nearestMultiple?_eq_none hpos hhigh habove]
    exact ih

theorem shortest_eq_coarsest (hpos : 0 < i.low) (hhigh : i.value < i.high)
    (h : i.high < Nat.pow 10 k) : i.shortest tie = i.coarsest tie k := by
  have hlength := lt_pow_length_digits i.high
  rw [digits, String.length_toList] at hlength
  rcases Nat.le_total (Nat.repr i.high).length k with hle | hle
  · exact (coarsest_eq_of_le hpos hhigh hlength hle).symm
  · exact coarsest_eq_of_le hpos hhigh h hle

section

variable {m : Nat} {e : Int} {narrow : Bool}

theorem low_pos (hpos : 0 < m) : 0 < (ofBinary m e narrow).low := by
  refine Nat.mul_pos ?_ (Nat.mul_pos (Nat.pow_pos (by decide)) (Nat.pow_pos (by decide)))
  split <;> omega

/-- A number is at most so many times as large as its rounding interval is wide. -/
theorem value_le_mul_width (hpos : 0 < m) : 3 * (ofBinary m e narrow).value ≤
    4 * m * ((ofBinary m e narrow).high - (ofBinary m e narrow).low) := by
  obtain ⟨scale, hscale⟩ :
    ∃ scale, scale = Nat.pow 2 (e - 2).toNat * Nat.pow 5 (2 - e).toNat := ⟨_, rfl⟩
  have hgap : 3 * scale ≤ (ofBinary m e narrow).high - (ofBinary m e narrow).low := by
    have hends : (ofBinary m e narrow).high - (ofBinary m e narrow).low =
        (4 * m + 2 - (4 * m - if narrow then 1 else 2)) * scale := by
      rw [hscale, Nat.sub_mul]
      rfl
    rw [hends]
    refine Nat.mul_le_mul_right scale ?_
    split <;> omega
  have hvalue : 3 * (ofBinary m e narrow).value = 4 * m * (3 * scale) := by
    rw [hscale]
    exact Nat.mul_left_comm 3 (4 * m) _
  rw [hvalue]
  exact Nat.mul_le_mul_left (4 * m) hgap

/-- **The digits of the shortest decimal of a double fit a word.** -/
theorem coefficient_shortest_lt (hpos : 0 < m) (hm : m < 2 ^ 53) (tie : Tie) :
    ((ofBinary m e narrow).shortest tie).coefficient < Nat.pow 2 64 := by
  obtain ⟨hlow, hhigh⟩ := low_lt_value_lt_high hpos e narrow
  obtain ⟨k, hk⟩ : ∃ k, (ofBinary m e narrow).high < Nat.pow 10 k := ⟨_, lt_pow_length_digits _⟩
  have hk' : (ofBinary m e narrow).high < Nat.pow 10 (k + 1) :=
    hk.trans_le (Nat.pow_le_pow_right (by decide) (Nat.le_succ k))
  have hnone : (ofBinary m e narrow).nearestMultiple? tie (k + 1) = none :=
    nearestMultiple?_eq_none (low_pos hpos) hhigh hk'
  have hle := coefficient_coarsest_le hlow hhigh (value_le_mul_width hpos) hnone
  rw [shortest_eq_coarsest (low_pos hpos) hhigh hk]
  change _ < 2 ^ 64
  omega

end

end Interval

/-- The shortest decimals of the five greatest doubles are not refused. -/
theorem isSome_scale?_greatest (hlow : 2 ^ 53 - 5 ≤ m) (hlt : m < 2 ^ 53) :
    (Json.scale? ((Interval.ofBinary m 971 false).shortest .toEven).coefficient
      ((Interval.ofBinary m 971 false).shortest .toEven).exponent).isSome := by
  obtain ⟨i, rfl⟩ : ∃ i : Fin 5, m = 2 ^ 53 - 1 - i.val :=
    ⟨⟨2 ^ 53 - 1 - m, by omega⟩, by dsimp only; omega⟩
  -- the search may start at 309 for all five, which can be evaluated
  have hhigh : ∀ i : Fin 5,
      (Interval.ofBinary (2 ^ 53 - 1 - i.val) 971 false).high < Nat.pow 10 309 := by
    decide +kernel
  have hcoarsest : ∀ i : Fin 5, (Json.scale?
      ((Interval.ofBinary (2 ^ 53 - 1 - i.val) 971 false).coarsest .toEven 309).coefficient
      ((Interval.ofBinary (2 ^ 53 - 1 - i.val) 971 false).coarsest .toEven 309).exponent).isSome := by
    decide +kernel
  have hpos : 0 < 2 ^ 53 - 1 - i.val := by omega
  have hinside := Interval.low_lt_value_lt_high hpos 971 false
  rw [Interval.shortest_eq_coarsest (Interval.low_pos hpos) hinside.2 (hhigh i)]
  exact hcoarsest i

/-- A decimal that rounds to a double is not refused, unless the double is one of the greatest. -/
theorem exists_scale?_of_roundsTo {d : Scaled} (hm : Canonical m e) (he : e ≤ 971)
    (hrounds : RoundsTo (d.coefficient * 10 ^ d.exponent) m e) (hless : e = 971 → m < 2 ^ 53 - 5) :
    ∃ x, Json.scale? d.coefficient d.exponent = some x := by
  obtain ⟨c, exponent⟩ := d
  cases exponent with
  | negSucc k => exact ⟨_, rfl⟩
  | ofNat k =>
    have hhigh : (c * 10 ^ k : ℚ) ≤ (m + 1 / 2) * 2 ^ e := by
      have := hrounds.high
      rwa [Int.ofNat_eq_natCast, zpow_natCast] at this
    refine exists_scale?_natCast (hrounds.coefficient_pos hm) (hhigh.trans ?_)
    rcases Int.lt_or_eq_of_le he with hlt | rfl
    -- below the greatest exponent the decimal is at most about half of the bound
    · have hhalf : (2 : ℚ) ^ e ≤ 2 ^ (971 : Int) / 2 := by
        rw [div_eq_mul_inv, ← zpow_sub_one₀ two_ne_zero]
        exact zpow_le_zpow_right₀ one_le_two (by omega)
      have hbits : (m : ℚ) + 1 ≤ 2 ^ 53 := by exact_mod_cast hm.lt
      calc ((m : ℚ) + 1 / 2) * 2 ^ e ≤ 2 ^ 53 * (2 ^ (971 : Int) / 2) :=
            mul_le_mul (by linarith) hhalf (by positivity) (by positivity)
        _ = 2 ^ 52 * 2 ^ (971 : Int) := by
            rw [← mul_div_assoc, mul_div_right_comm]
            norm_num
        _ ≤ (2 ^ 53 - 11 / 2) * 2 ^ (971 : Int) :=
            mul_le_mul_of_nonneg_right (by norm_num) (by positivity)
    -- at the greatest exponent the bound leaves out the five greatest significands
    · have hbits : m + 6 ≤ 2 ^ 53 := by
        have := hless rfl
        omega
      have hbits' : (m : ℚ) + 6 ≤ 2 ^ 53 := by exact_mod_cast hbits
      exact mul_le_mul_of_nonneg_right (by linarith) (by positivity)

/-- **The shortest decimal of a double is not refused.** -/
theorem exists_scale?_shortest (hm : Canonical m e) (he : e ≤ 971) {narrow : Bool}
    (hnarrow : narrow = true ↔ m = 2 ^ 52 ∧ -1074 < e) :
    ∃ x, Json.scale? ((Interval.ofBinary m e narrow).shortest .toEven).coefficient
      ((Interval.ofBinary m e narrow).shortest .toEven).exponent = some x := by
  by_cases hgreatest : e = 971 ∧ 2 ^ 53 - 5 ≤ m
  · obtain ⟨rfl, hle⟩ := hgreatest
    obtain rfl : narrow = false := by
      rw [← Bool.not_eq_true, hnarrow]
      omega
    exact Option.isSome_iff_exists.1 (isSome_scale?_greatest hle hm.lt)
  · exact exists_scale?_of_roundsTo hm he (Interval.roundsTo_shortest hnarrow hm.pos .toEven)
      fun h => by omega

end Spreadsheet.Decimal
