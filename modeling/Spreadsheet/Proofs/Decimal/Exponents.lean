import Spreadsheet.Proofs.Decimal.RoundTrip

/-! # Texts with a power of ten
The text that a sheet file's number gets has a power of ten unless its **decimal exponent**, that of
its first digit, lies in a range. Rounding to doubles is monotone, so the shortest decimal of a
positive double has a decimal exponent of -5 or more exactly when the double is `1e-5` or more. From
there on the text is an unsigned numeral of the double, with or without a power of ten. Below, the
power of ten has a sign. -/

namespace Spreadsheet.Decimal

open Float.Model UnpackedFloat

variable {m m' : Nat} {e e' : Int} {x y : Float}

/-! ## Order -/

/-- Positive finite doubles are ordered by their exponents and then by their significands. -/
theorem le_iff_of_unpack {hm : 0 < m} {hm' : 0 < m'}
    (hx : x.toModel.unpack = .finite .positive m e hm)
    (hy : y.toModel.unpack = .finite .positive m' e' hm') : x ≤ y ↔ e < e' ∨ e = e' ∧ m ≤ m' := by
  have hle : x ≤ y ↔ x.toModel.unpack.le y.toModel.unpack = true := decide_eq_true_iff
  rw [hle, hx, hy]
  change ((compare e e').then (compare m m')).isLE ↔ _
  rw [Ordering.isLE_then_iff_or, compare_lt_iff_lt, compare_eq_iff_eq, Nat.isLE_compare]

theorem lt_iff_of_unpack {hm : 0 < m} {hm' : 0 < m'}
    (hx : x.toModel.unpack = .finite .positive m e hm)
    (hy : y.toModel.unpack = .finite .positive m' e' hm') : x < y ↔ e < e' ∨ e = e' ∧ m < m' := by
  have hlt : x < y ↔ x.toModel.unpack.lt y.toModel.unpack = true := decide_eq_true_iff
  rw [hlt, hx, hy]
  change (some ((compare e e').then (compare m m')) == some .lt) = true ↔ _
  rw [beq_iff_eq, Option.some.injEq, Ordering.then_eq_lt, compare_lt_iff_lt, compare_eq_iff_eq,
    compare_lt_iff_lt]

/-- **Rounding intervals do not overlap**: that of a smaller double ends where that of a larger one
starts, or before. -/
theorem high_le_low (hm : Canonical m e) (hm' : Canonical m' e') (hlt : e < e' ∨ e = e' ∧ m < m') :
    ((m : ℚ) + 1 / 2) * 2 ^ e ≤ (m' - halfGapBelow m' e') * 2 ^ e' := by
  have hpos : (0 : ℚ) < 2 ^ e' := by positivity
  rcases hlt with hlt | ⟨rfl, hlt⟩
  · -- the larger one has all its bits, and the interval below it is narrow at a power of two
    have hfull : 2 ^ 52 ≤ m' := hm'.full.resolve_right fun h => by have := hm.le; omega
    have hbits : (m : ℚ) + 1 ≤ 2 ^ 53 := by exact_mod_cast hm.lt
    have hpow : (2 : ℚ) ^ e ≤ 2 ^ e' / 2 := by
      rw [div_eq_mul_inv, ← zpow_sub_one₀ two_ne_zero]
      exact zpow_le_zpow_right₀ one_le_two (by omega)
    have hgap : (2 : ℚ) ^ 52 - 1 / 4 ≤ m' - halfGapBelow m' e' := by
      unfold halfGapBelow
      split
      · rename_i h
        rw [h.1]
        norm_num
      · rename_i h
        have hne : m' ≠ 2 ^ 52 := fun heq => h ⟨heq, by have := hm.le; omega⟩
        have hnext : (2 : ℚ) ^ 52 + 1 ≤ m' := by exact_mod_cast Nat.lt_of_le_of_ne hfull hne.symm
        linarith
    calc ((m : ℚ) + 1 / 2) * 2 ^ e ≤ (2 ^ 53 - 1 / 2) * (2 ^ e' / 2) :=
          mul_le_mul (by linarith) hpow (by positivity) (by norm_num)
      _ = (2 ^ 52 - 1 / 4) * 2 ^ e' := by ring
      _ ≤ (m' - halfGapBelow m' e') * 2 ^ e' := mul_le_mul_of_nonneg_right hgap hpos.le
  · have hnext : (m : ℚ) + 1 ≤ m' := by exact_mod_cast hlt
    have hgap := halfGapBelow_le m' e
    exact mul_le_mul_of_nonneg_right (by linarith) hpos.le

/-- A number below the interval of a double rounds to a smaller one. -/
theorem RoundsTo.lt_of_lt_low {z : ℚ} (h : RoundsTo z m e) (hm : Canonical m e)
    (hm' : Canonical m' e') (hlow : z < (m' - halfGapBelow m' e') * 2 ^ e') :
    e < e' ∨ e = e' ∧ m < m' := by
  by_contra hnot
  have hle : (m' - halfGapBelow m' e') * 2 ^ e' ≤ z := by
    by_cases heq : e = e' ∧ m = m'
    · obtain ⟨rfl, rfl⟩ := heq
      exact h.low
    · have hgap := halfGapBelow_pos m' e'
      have hends : (m' - halfGapBelow m' e') * 2 ^ e' ≤ ((m' : ℚ) + 1 / 2) * 2 ^ e' :=
        mul_le_mul_of_nonneg_right (by linarith) (by positivity)
      exact hends.trans ((high_le_low hm' hm (by omega)).trans h.low)
  exact absurd hlow (not_lt.2 hle)

/-- A number above the lower end of the interval of a double does not round to a smaller one. -/
theorem RoundsTo.le_of_low_lt {z : ℚ} (h : RoundsTo z m e) (hm : Canonical m e)
    (hm' : Canonical m' e') (hlow : (m' - halfGapBelow m' e') * 2 ^ e' < z) :
    e' < e ∨ e' = e ∧ m' ≤ m := by
  by_contra hnot
  exact absurd hlow (not_lt.2 (h.high.trans (high_le_low hm hm' (by omega))))

/-! ## Decimal exponents -/

theorem length_digits_pos (n : Nat) : 0 < (digits n).length :=
  List.length_pos_of_ne_nil (digits_ne_nil n)

theorem lt_pow_length_digits (n : Nat) : n < 10 ^ (digits n).length := by
  have hpos := length_digits_pos n
  rw [digits, Nat.toList_repr] at hpos ⊢
  exact (Nat.length_toDigits_le_iff (by decide) hpos).1 le_rfl

theorem pow_length_digits_le (h : 0 < m) : 10 ^ ((digits m).length - 1) ≤ m := by
  by_contra hlt
  rw [Nat.not_le] at hlt
  rcases Nat.eq_zero_or_pos ((digits m).length - 1) with hone | hmore
  · rw [hone, pow_zero] at hlt
    omega
  · have hle := (Nat.length_toDigits_le_iff (by decide) hmore).2 hlt
    have hpos := length_digits_pos m
    rw [digits, Nat.toList_repr] at hle hpos
    omega

/-- A decimal lies between the power of ten of its first digit and the next one. -/
theorem scientificExponent_bounds {d : Scaled} (h : 0 < d.coefficient) :
    (10 : ℚ) ^ d.scientificExponent ≤ d.coefficient * 10 ^ d.exponent ∧
      (d.coefficient * 10 ^ d.exponent : ℚ) < 10 ^ (d.scientificExponent + 1) := by
  have hten : (0 : ℚ) < 10 ^ d.exponent := by positivity
  have hlow : (10 : ℚ) ^ ((digits d.coefficient).length - 1) ≤ d.coefficient := by
    exact_mod_cast pow_length_digits_le h
  have hhigh : (d.coefficient : ℚ) < 10 ^ (digits d.coefficient).length := by
    exact_mod_cast lt_pow_length_digits d.coefficient
  constructor
  · rw [Scaled.scientificExponent, zpow_add₀ (by norm_num), zpow_natCast, mul_comm]
    exact mul_le_mul_of_nonneg_right hlow hten.le
  · have hnext : d.scientificExponent + 1 =
        ((digits d.coefficient).length : Int) + d.exponent := by
      have hlength := length_digits_pos d.coefficient
      rw [Scaled.scientificExponent]
      omega
    rw [hnext, zpow_add₀ (by norm_num), zpow_natCast]
    exact mul_lt_mul_of_pos_right hhigh hten

theorem le_scientificExponent_iff {d : Scaled} (h : 0 < d.coefficient) {k : Int} :
    k ≤ d.scientificExponent ↔ (10 : ℚ) ^ k ≤ d.coefficient * 10 ^ d.exponent := by
  obtain ⟨hlow, hhigh⟩ := scientificExponent_bounds h
  constructor
  · intro hk
    exact (zpow_le_zpow_right₀ (by norm_num) hk).trans hlow
  · intro hk
    have := (zpow_lt_zpow_iff_right₀ (by norm_num)).1 (hk.trans_lt hhigh)
    omega

/-- The double of a hundred-thousandth. -/
theorem unpack_hundredThousandth :
    (1e-5 : Float).toModel.unpack = .finite .positive 5902958103587057 (-69) (by decide) := rfl

/-- **The decimal exponent of a positive double** is -5 or more exactly when the double is `1e-5` or
more. -/
theorem le_scientificExponent_shortest_iff {hpos : 0 < m}
    (h : x.toModel.unpack = .finite .positive m e hpos) :
    -5 ≤ ((Interval.ofBinary m e (decide (m = 2 ^ 52 ∧ -1074 < e))).shortest
      .toEven).scientificExponent ↔ 1e-5 ≤ x := by
  obtain ⟨hm, -⟩ := canonical_of_unpack h
  obtain ⟨hm₀, -⟩ := canonical_of_unpack unpack_hundredThousandth
  have hrounds := Interval.roundsTo_shortest (m := m) (e := e) decide_eq_true_iff hpos .toEven
  -- a hundred-thousandth lies inside the rounding interval of its double
  have hlow : ((5902958103587057 : Nat) - halfGapBelow 5902958103587057 (-69)) * 2 ^ (-69 : Int) <
      (10 : ℚ) ^ (-5 : Int) := by
    rw [halfGapBelow, if_neg (by decide)]
    norm_num
  have hhigh : (10 : ℚ) ^ (-5 : Int) ≤ ((5902958103587057 : Nat) + 1 / 2) * 2 ^ (-69 : Int) := by
    norm_num
  rw [le_iff_of_unpack unpack_hundredThousandth h]
  by_cases heq : m = 5902958103587057 ∧ e = -69
  · obtain ⟨rfl, rfl⟩ := heq
    exact iff_of_true (by decide +kernel) (.inr ⟨rfl, le_rfl⟩)
  · rw [le_scientificExponent_iff (hrounds.coefficient_pos hm)]
    constructor
    · intro hle
      by_contra hnot
      have hbelow : e < -69 ∨ e = -69 ∧ m < 5902958103587057 := by omega
      have := hrounds.high.trans (high_le_low hm hm₀ hbelow)
      linarith
    · intro hle
      have habove : -69 < e ∨ -69 = e ∧ 5902958103587057 < m := by omega
      exact hhigh.trans ((high_le_low hm₀ hm habove).trans hrounds.low)

/-! ## Texts of decimals -/

variable {d : Scaled} {c : Char}

/-- The text of a decimal without a power of ten, with a point in any case. -/
theorem positional_pointZero_cases (d : Scaled) :
    (∃ zeros : Nat, d.exponent = zeros ∧ d.positional true =
      (digits d.coefficient ++ List.replicate zeros '0') ++ ['.', '0']) ∨
    d.exponent < 0 ∧ d.positional true = d.positional false := by
  obtain ⟨n, exponent⟩ := d
  cases exponent with
  | ofNat zeros => exact .inl ⟨zeros, rfl, rfl⟩
  | negSucc k => exact .inr ⟨Int.negSucc_lt_zero k, rfl⟩

theorem unsigned_positional_pointZero (d : Scaled) :
    ∃ (c : Nat) (k : Int), Unsigned (d.positional true) (toDouble c k) ∧
      (c * 10 ^ k : ℚ) = d.coefficient * 10 ^ d.exponent := by
  rcases positional_pointZero_cases d with ⟨zeros, hexponent, htext⟩ | ⟨-, htext⟩
  · have hdigits := denotes_digits_append_zeros d.coefficient (zeros + 1)
    rw [List.replicate_succ', ← List.append_assoc] at hdigits
    refine ⟨d.coefficient * 10 ^ (zeros + 1), _, htext ▸ Unsigned.pointed hdigits .absent, ?_⟩
    rw [hexponent]
    push_cast
    rw [zpow_natCast, pow_succ]
    norm_num
    ring
  · rw [htext]
    exact unsigned_positional d

/-- The characters of such a text. -/
theorem isDigit_or_of_mem_positional_pointZero (h : c ∈ d.positional true) :
    c.isDigit ∨ c = '.' := by
  rcases positional_pointZero_cases d with ⟨zeros, -, htext⟩ | ⟨-, htext⟩
  · rw [htext] at h
    rcases List.mem_append.1 h with h | h
    · exact .inl ((List.mem_append.1 h).elim isDigit_of_mem_digits isDigit_of_mem_replicate)
    · rcases List.mem_cons.1 h with rfl | h
      · exact .inr rfl
      · obtain rfl := List.mem_singleton.1 h
        exact .inl rfl
  · exact isDigit_or_of_mem_positional (htext ▸ h)

/-- A decimal with a power of ten starts with its digits, of which the first one has a point behind
it if there are others, and these make an unsigned numeral with any power. -/
theorem exists_mantissa (d : Scaled) :
    ∃ mantissa : List Char, (∀ c ∈ mantissa, c.isDigit ∨ c = '.') ∧
      d.scientific false = mantissa ++ 'e' :: (match d.scientificExponent with
        | .ofNat E => digits E
        | .negSucc k => '-' :: digits (k + 1)) ∧
      ∀ power E, Power power E → Unsigned (mantissa ++ power)
        (toDouble d.coefficient (E - ((digits d.coefficient).length - 1 : Nat))) := by
  have hdigits := denotes_zeros_append_digits 0 d.coefficient
  rw [List.replicate_zero, List.nil_append] at hdigits
  have hmem : ∀ c ∈ digits d.coefficient, c.isDigit := fun c => isDigit_of_mem_digits
  match htext : digits d.coefficient with
  | [] => exact absurd htext (digits_ne_nil d.coefficient)
  | [first] =>
    rw [htext] at hdigits hmem
    refine ⟨[first], fun c hc => .inl (hmem c hc), ?_, fun power E hpower => ?_⟩
    · simp only [Scaled.scientific, htext]
      rfl
    · rw [List.length_singleton, Nat.sub_self, Nat.cast_zero, sub_zero]
      exact .whole hdigits hpower
  | first :: second :: rest =>
    rw [htext] at hdigits hmem
    refine ⟨first :: '.' :: second :: rest, fun c hc => ?_, ?_, fun power E hpower => ?_⟩
    · simp only [List.mem_cons] at hc hmem
      rcases hc with rfl | rfl | hc
      · exact .inl (hmem _ (.inl rfl))
      · exact .inr rfl
      · exact .inl (hmem _ (.inr hc))
    · simp only [Scaled.scientific, htext]
      rfl
    · have hdigits : Denotes 10 ([first] ++ second :: rest) d.coefficient := hdigits
      exact .pointed hdigits hpower

/-- **A decimal with a power of ten and no sign** is an unsigned numeral of the same value. -/
theorem unsigned_scientific (h : 0 ≤ d.scientificExponent) :
    Unsigned (d.scientific false) (toDouble d.coefficient d.exponent) ∧
      ∀ c ∈ d.scientific false, c.isDigit ∨ c = '.' ∨ c = 'e' := by
  obtain ⟨mantissa, hplain, htext, hunsigned⟩ := exists_mantissa d
  obtain ⟨E, hE⟩ := Int.eq_ofNat_of_zero_le h
  have hexponent : d.exponent = E - ((digits d.coefficient).length - 1 : Nat) := by
    rw [← hE, Scaled.scientificExponent, add_sub_cancel_right]
  rw [hE] at htext
  rw [htext]
  refine ⟨?_, fun c hc => ?_⟩
  · have hpower : Power ('e' :: digits E) E := .mark (.inl rfl) (denotes_zeros_append_digits 0 E)
    rw [hexponent]
    exact hunsigned _ E hpower
  · rcases List.mem_append.1 hc with hc | hc
    · exact (hplain c hc).imp_right .inl
    · rcases List.mem_cons.1 hc with rfl | hc
      · exact .inr (.inr rfl)
      · exact .inl (isDigit_of_mem_digits hc)

/-- A decimal with a negative power of ten has a sign after its digits. -/
theorem scientific_of_neg (h : d.scientificExponent < 0) :
    ∃ mantissa power : List Char, d.scientific false = mantissa ++ 'e' :: '-' :: power ∧
      (∀ c ∈ mantissa, c.isDigit ∨ c = '.') ∧ ∀ c ∈ power, c.isDigit := by
  obtain ⟨mantissa, hplain, htext, -⟩ := exists_mantissa d
  obtain ⟨k, hk⟩ := Int.eq_negSucc_of_lt_zero h
  rw [hk] at htext
  exact ⟨mantissa, _, htext, hplain, fun c => isDigit_of_mem_digits⟩

/-! ## Texts of doubles -/

/-- The text of a finite double other than zero in a sheet file's layout. -/
theorem yamlDouble_eq_ofDecimal {sign : Sign} {hpos : 0 < m}
    (h : x.toModel.unpack = .finite sign m e hpos) :
    yamlDouble.render (.ofDouble x) = Layout.signed (sign == .negative) (yamlDouble.ofDecimal
      ((Interval.ofBinary m e (decide (m = 2 ^ 52 ∧ -1074 < e))).shortest .toEven)) :=
  render_of_unpack rfl h

/-- **The text of a double from `1e-5` on** is an unsigned numeral of the double. -/
theorem unsigned_yamlDouble {hpos : 0 < m} (h : x.toModel.unpack = .finite .positive m e hpos)
    (hle : 1e-5 ≤ x) :
    Unsigned (yamlDouble.render (.ofDouble x)).toList x ∧
      ∀ c ∈ (yamlDouble.render (.ofDouble x)).toList, c.isDigit ∨ c = '.' ∨ c = 'e' := by
  obtain ⟨hm, he⟩ := canonical_of_unpack h
  have hrounds := Interval.roundsTo_shortest (m := m) (e := e) decide_eq_true_iff hpos .toEven
  have hexponent := (le_scientificExponent_shortest_iff h).2 hle
  rw [yamlDouble_eq_ofDecimal h, Layout.signed, String.toList_ofList, if_neg (by decide)]
  generalize (Interval.ofBinary m e _).shortest .toEven = d at hrounds hexponent
  rw [eq_of_unpack h]
  unfold Layout.ofDecimal
  split
  · obtain ⟨c, k, hunsigned, hvalue⟩ := unsigned_positional_pointZero d
    rw [← hvalue] at hrounds
    rw [← toDouble_eq hm he hrounds]
    exact ⟨hunsigned, fun c hc => (isDigit_or_of_mem_positional_pointZero hc).imp_right .inl⟩
  · rename_i hlarge
    have hnonneg : 0 ≤ d.scientificExponent := by
      simp only [yamlDouble, Bool.and_eq_true, decide_eq_true_eq] at hlarge
      omega
    rw [← toDouble_eq hm he hrounds]
    exact unsigned_scientific hnonneg

/-- The text of a positive double below `1e-5` has a sign after its digits. -/
theorem yamlDouble_of_lt {hpos : 0 < m} (h : x.toModel.unpack = .finite .positive m e hpos)
    (hlt : ¬ 1e-5 ≤ x) :
    ∃ mantissa power : List Char,
      (yamlDouble.render (.ofDouble x)).toList = mantissa ++ 'e' :: '-' :: power ∧
      (∀ c ∈ mantissa, c.isDigit ∨ c = '.') ∧ ∀ c ∈ power, c.isDigit := by
  have hexponent := (le_scientificExponent_shortest_iff h).not.2 hlt
  rw [yamlDouble_eq_ofDecimal h, Layout.signed, String.toList_ofList, if_neg (by decide)]
  generalize (Interval.ofBinary m e _).shortest .toEven = d at hexponent
  have hsmall : yamlDouble.positional d.scientificExponent = false := by
    simp only [yamlDouble, Bool.and_eq_false_iff, decide_eq_false_iff_not]
    omega
  rw [Layout.ofDecimal, hsmall, if_neg Bool.false_ne_true]
  exact scientific_of_neg (by omega)

/-- The characters of a decimal in the layout. -/
theorem of_mem_yamlDouble_ofDecimal (h : c ∈ yamlDouble.ofDecimal d) :
    c.isDigit ∨ c = '.' ∨ c = 'e' ∨ c = '-' := by
  unfold Layout.ofDecimal at h
  split at h
  · exact (isDigit_or_of_mem_positional_pointZero h).imp_right .inl
  · rcases Int.lt_or_le d.scientificExponent 0 with hneg | hnonneg
    · obtain ⟨mantissa, power, htext, hmantissa, hpower⟩ := scientific_of_neg hneg
      rw [yamlDouble, htext, List.mem_append, List.mem_cons, List.mem_cons] at h
      rcases h with h | rfl | rfl | h
      · exact (hmantissa c h).imp_right .inl
      · exact .inr (.inr (.inl rfl))
      · exact .inr (.inr (.inr rfl))
      · exact .inl (hpower c h)
    · exact ((unsigned_scientific hnonneg).2 c h).imp_right fun h => h.imp_right .inl

end Spreadsheet.Decimal
