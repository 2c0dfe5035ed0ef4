import Spreadsheet.CommandLine.Layout
import Spreadsheet.Proofs.Decimal.Magnitude
import Spreadsheet.Proofs.Decimal.Places

/-! # Numbers as the command writes them
A finite number is scaled to millionths, rounded to a whole number of them and scaled back, and then
written with six places without the zeros that end it. Each of the steps rounds once, so the text is
a **trimmed numeral** that is about half a millionth off. The product that scales it is infinite for
a very large number, however, and a negative number that is rounded to zero keeps its sign. -/

namespace Spreadsheet.CommandLine

open Float.Model UnpackedFloat Decimal

variable {x : Float} {s : Sign} {n units places : Nat} {k : Int} {hpos : 0 < n}
  {text : List Char} {c d : Char}

/-! ## Dropped endings -/

theorem dropTrailing_concat_of_ne (h : d ≠ c) : dropTrailing c (text ++ [d]) = text ++ [d] :=
  List.rdropWhile_concat_neg _ _ _ (by simpa using h)

theorem dropTrailing_concat_self (c : Char) (text : List Char) :
    dropTrailing c (text ++ [c]) = dropTrailing c text :=
  List.rdropWhile_concat_pos _ _ _ (by simp)

theorem dropTrailing_append_replicate (c : Char) (text : List Char) (k : Nat) :
    dropTrailing c (text ++ List.replicate k c) = dropTrailing c text := by
  induction k with
  | zero => rw [List.replicate_zero, List.append_nil]
  | succ k ih => rw [List.replicate_succ', ← List.append_assoc, dropTrailing_concat_self, ih]

/-- Digits are zeros, or zeros after a last digit that is not zero. -/
theorem zeros_or_exists_last (digits : List Char) :
    (∃ k, digits = List.replicate k '0') ∨
      ∃ front last k, last ≠ '0' ∧ digits = front ++ [last] ++ List.replicate k '0' := by
  induction digits using List.reverseRecOn with
  | nil => exact .inl ⟨0, rfl⟩
  | append_singleton digits d ih =>
    by_cases hd : d = '0'
    · rw [hd]
      rcases ih with ⟨k, rfl⟩ | ⟨front, last, k, hlast, rfl⟩
      · exact .inl ⟨k + 1, List.replicate_succ'.symm⟩
      · refine .inr ⟨front, last, k + 1, hlast, ?_⟩
        rw [List.replicate_succ', List.append_assoc _ _ ['0']]
    · exact .inr ⟨digits, d, 0, hd, (List.append_nil _).symm⟩

/-- **Without the zeros that end it and a point that ends it then**, a number with fixed places is a
trimmed numeral, whatever stands in front of it. -/
theorem exists_trimmed_dropTrailing (hplaces : 0 < places) (units : Nat) (front : List Char) :
    ∃ text, Trimmed places units text ∧
      dropTrailing '.' (dropTrailing '0' (front ++ withPoint places units)) = front ++ text := by
  obtain ⟨whole, fraction, hwhole, rfl, hn, htext⟩ := withPoint_cases hplaces units
  -- a digit at the end keeps the point from being dropped
  have hdigit : ∀ {digits : List Char} {d : Char}, d ∈ whole ++ fraction →
      dropTrailing '.' (digits ++ [d]) = digits ++ [d] := fun hd =>
    dropTrailing_concat_of_ne fun h => absurd (h ▸ hn.isDigit_of_mem hd) (by decide)
  rw [htext]
  rcases zeros_or_exists_last fraction with ⟨k, rfl⟩ | ⟨more, last, k, hne, rfl⟩
  · -- only zeros after the point: it is dropped as well, and the zeros before it stay
    obtain ⟨n, hwhole', rfl⟩ := exists_denotes_of_append_zeros hwhole.ne_nil hn
    obtain ⟨first, d, rfl⟩ := (List.eq_nil_or_concat' whole).resolve_left hwhole.ne_nil
    refine ⟨first ++ [d], List.length_replicate ▸ .whole hwhole hwhole', ?_⟩
    have hsplit : front ++ (first ++ [d] ++ '.' :: List.replicate k '0') =
        front ++ first ++ [d] ++ ['.'] ++ List.replicate k '0' := by
      simp
    rw [hsplit, dropTrailing_append_replicate, dropTrailing_concat_of_ne (by decide),
      dropTrailing_concat_self, hdigit (by simp), List.append_assoc]
  · rw [← List.append_assoc] at hn
    obtain ⟨n, hn', rfl⟩ := exists_denotes_of_append_zeros
      (List.append_ne_nil_of_left_ne_nil hwhole.ne_nil _) hn
    refine ⟨whole ++ '.' :: (more ++ [last]), .pointed hwhole hn' hne ?_, ?_⟩
    · rw [List.length_append, List.length_append, List.length_replicate, List.length_singleton]
    · have hsplit : front ++ (whole ++ '.' :: (more ++ [last] ++ List.replicate k '0')) =
          front ++ (whole ++ '.' :: more) ++ [last] ++ List.replicate k '0' := by
        simp
      rw [hsplit, dropTrailing_append_replicate, dropTrailing_concat_of_ne hne, hdigit (by simp)]
      simp

/-- A number with six places and a sign is written as a trimmed numeral with the sign. -/
theorem exists_trimmed_signed (negative : Bool) (units : Nat) :
    ∃ digits, Trimmed 6 units digits ∧ String.ofList (dropTrailing '.' (dropTrailing '0'
      (Layout.signed negative (withPoint 6 units)).toList)) = Layout.signed negative digits := by
  have hsign : ∀ text : List Char, (if negative then '-' :: text else text) =
      (if negative then ['-'] else []) ++ text := by
    cases negative <;> exact fun _ => rfl
  obtain ⟨digits, hdigits, htext⟩ := exists_trimmed_dropTrailing (by decide : 0 < 6) units
    (if negative then ['-'] else [])
  refine ⟨digits, hdigits, ?_⟩
  rw [Layout.signed, String.toList_ofList, hsign (withPoint 6 units), htext, Layout.signed,
    hsign digits]

/-! ## Millionths -/

/-- The double of a million. -/
theorem unpack_million :
    (1000000 : Float).toModel.unpack = .finite .positive 8589934592000000 (-33) (by decide) := rfl

theorem million_eq : ((8589934592000000 : Nat) * 2 ^ (-33 : Int) : ℚ) = 10 ^ 6 := by
  norm_num

/-- The least double that is rounded to a millionth. -/
theorem unpack_halfMillionth :
    (5e-7 : Float).toModel.unpack = .finite .positive 4722366482869645 (-73) (by decide) := rfl

/-- The least double that has too many millionths. -/
theorem unpack_tooManyMillionths : (1.797693134862316e302 : Float).toModel.unpack =
    .finite .positive 4722366482869645 952 (by decide) := by
  have hbits : (1.797693134862316e302 : Float) = Float.ofModel (Float.Model.pack
      (.finite .positive 4722366482869645 952 (by decide))) := by
    decide +kernel
  have hcanonical : Canonical 4722366482869645 952 :=
    ⟨by decide, by decide, by decide, .inl (by decide)⟩
  rw [hbits]
  exact unpack_pack hcanonical (by decide)

theorem tooLarge_eq : tooLarge = (2 ^ 53 - 1 / 2) * 2 ^ 19 * 2 ^ (952 : Int) := by
  rw [tooLarge, show (971 : Int) = ((19 : Nat) : Int) + 952 from rfl, zpow_add₀ two_ne_zero,
    zpow_natCast, mul_assoc]

/-- Numbers below that have millionths that are not too large. -/
theorem lt_tooLarge_of_abs_lt (hx : x.isFinite) (h : x.abs < 1.797693134862316e302) :
    magnitude x * 10 ^ 6 < tooLarge := by
  have hlow := magnitude_lt_low hx unpack_tooManyMillionths h
  rw [halfGapBelow, if_neg (by decide)] at hlow
  have hpow : (0 : ℚ) < 2 ^ (952 : Int) := by positivity
  rw [tooLarge_eq]
  -- the bounds are compared in units of the last place, whose numeral has hundreds of digits
  generalize (2 : ℚ) ^ (952 : Int) = unit at *
  push_cast at hlow
  linarith

/-- Numbers from that on have millionths that are too large. -/
theorem tooLarge_lt_of_not_abs_lt (hx : x.isFinite) (h : ¬ x.abs < 1.797693134862316e302) :
    tooLarge < magnitude x * 10 ^ 6 := by
  have hlow := (lt_or_le_magnitude hx unpack_tooManyMillionths).resolve_left h
  have hpow : (0 : ℚ) < 2 ^ (952 : Int) := by positivity
  rw [tooLarge_eq]
  generalize (2 : ℚ) ^ (952 : Int) = unit at *
  push_cast at hlow
  linarith

/-- The interval of one half. -/
theorem canonical_half : Canonical (2 ^ 52) (-53) :=
  ⟨by decide, by decide, by decide, .inl le_rfl⟩

theorem low_half_eq : (((2 ^ 52 : Nat) : ℚ) - halfGapBelow (2 ^ 52) (-53)) * 2 ^ (-53 : Int) =
    1 / 2 - 1 / 2 ^ 55 := by
  rw [halfGapBelow, if_pos (by decide)]
  norm_num

/-- Numbers below half a millionth have millionths that are rounded to less than one half. -/
theorem lt_low_half_of_abs_lt (hx : x.isFinite) (h : x.abs < 5e-7) :
    magnitude x * 10 ^ 6 < 1 / 2 - 1 / 2 ^ 55 := by
  have hlow := magnitude_lt_low hx unpack_halfMillionth h
  rw [halfGapBelow, if_neg (by decide)] at hlow
  norm_num at hlow ⊢
  linarith

/-- Numbers from half a millionth on have millionths that are rounded to one half at least. -/
theorem low_half_lt_of_not_abs_lt (hx : x.isFinite) (h : ¬ x.abs < 5e-7) :
    1 / 2 - 1 / 2 ^ 55 < magnitude x * 10 ^ 6 := by
  have hlow := (lt_or_le_magnitude hx unpack_halfMillionth).resolve_left h
  norm_num at hlow ⊢
  linarith

/-- The millionths of a number are rounded once. -/
theorem exists_unpack_millionths (h : x.toModel.unpack = .finite s n k hpos) :
    ∃ (m : Nat) (e : Int) (hm : Canonical m e), RoundsTo (magnitude x * 10 ^ 6) m e ∧
      (x * 1000000).toModel.unpack = if e ≤ 971 then .finite s m e hm.pos else .infinity s := by
  have hmul := exists_unpack_mul h unpack_million (by decide) (by rw [million_eq]; norm_num)
  rwa [million_eq, ← magnitude_of_unpack h] at hmul

/-! ## Rounding to millionths -/

/-- **A number with too many millionths** becomes infinite. -/
theorem unpack_roundMillionth_of_tooLarge (h : x.toModel.unpack = .finite s n k hpos)
    (hlarge : tooLarge < magnitude x * 10 ^ 6) :
    (roundMillionth x).toModel.unpack = .infinity s := by
  obtain ⟨m, e, hm, hrounds, hmul⟩ := exists_unpack_millionths h
  rw [if_neg (not_le.2 (hrounds.lt_of_tooLarge_lt hm hlarge))] at hmul
  rw [roundMillionth, roundHalfAway_of_infinity hmul]
  exact unpack_div_of_infinity hmul unpack_million

/-- Zero stays zero. -/
theorem unpack_roundMillionth_of_zero (h : x.toModel.unpack = .zero s) :
    (roundMillionth x).toModel.unpack = .zero s := by
  have hmul := unpack_mul_of_zero h unpack_million
  rw [roundMillionth, roundHalfAway_of_zero hmul]
  exact unpack_div_of_zero hmul unpack_million

/-- **A number below half a millionth** becomes a zero of its sign. -/
theorem unpack_roundMillionth_of_lt (h : x.toModel.unpack = .finite s n k hpos)
    (hsmall : magnitude x * 10 ^ 6 < 1 / 2 - 1 / 2 ^ 55) :
    (roundMillionth x).toModel.unpack = .zero s := by
  obtain ⟨m, e, hm, hrounds, hmul⟩ := exists_unpack_millionths h
  have hlt := hrounds.lt_of_lt_low hm canonical_half (low_half_eq ▸ hsmall)
  have hhalf := mul_lt_low hm canonical_half hlt
  rw [if_pos (by omega)] at hmul
  obtain ⟨whole, hlow, -, hzero, -⟩ := exists_unpack_roundHalfAway hmul
  have hwhole : whole = 0 := by
    rw [low_half_eq] at hhalf
    have : (whole : ℚ) < 1 := by linarith
    exact Nat.lt_one_iff.1 (by exact_mod_cast this)
  rw [roundMillionth]
  exact unpack_div_of_zero (hzero hwhole) unpack_million

/-- Scaling back a whole number of millionths rounds once. -/
theorem exists_unpack_div_million {w : Float} (h : w.toModel.unpack = .finite s n k hpos)
    (hvalue : (n * 2 ^ k : ℚ) = units) (hunits : 0 < units) :
    ∃ (m : Nat) (e : Int) (hm : 0 < m), (w / 1000000).toModel.unpack = .finite s m e hm ∧
      |(m * 2 ^ e * 10 ^ 6 : ℚ) - units| ≤ m * 2 ^ e * 10 ^ 6 / 2 ^ 53 := by
  have hone : (1 : ℚ) ≤ units := by exact_mod_cast hunits
  have hlow : (2 : ℚ) ^ (-1022 : Int) ≤ units / 10 ^ 6 :=
    (zpow_le_zpow_right₀ one_le_two (by decide : (-1022 : Int) ≤ -20)).trans (by
      rw [le_div_iff₀ (by norm_num)]
      norm_num
      linarith)
  obtain ⟨m, e, hm, hfull, hrounds, hdiv⟩ := exists_unpack_div h unpack_million
    (by rw [million_eq]; norm_num) (by rwa [million_eq, hvalue])
  rw [million_eq, hvalue] at hrounds
  refine ⟨m, e, hm.pos, hdiv, ?_⟩
  have herror := hrounds.abs_sub_le hfull
  rw [abs_sub_le_iff] at herror ⊢
  constructor <;> linarith

/-- The errors of the steps add up to half a millionth and about one part in `2 ^ 52`. -/
theorem abs_units_sub_le {q z y : ℚ} {whole : Nat} (hz : |z - q| ≤ z / 2 ^ 53)
    (hlow : whole - 1 / 2 ≤ z) (hhigh : z < whole + 1 / 2) (hy : |y - whole| ≤ y / 2 ^ 53)
    (hunits : |units - y| ≤ 1 / 2) : |units - q| ≤ 1 / 2 + q / 2 ^ 51 := by
  rw [abs_sub_le_iff] at hz hy hunits ⊢
  by_cases hsmall : (whole : ℚ) ≤ 3 * 2 ^ 50
  · -- scaling back and forth does not lose the whole number
    have hunits' : units = whole := by
      have hless : (units : ℚ) < whole + 1 := by linarith
      have hmore : (whole : ℚ) < units + 1 := by linarith
      have hless' : units < whole + 1 := by exact_mod_cast hless
      have hmore' : whole < units + 1 := by exact_mod_cast hmore
      omega
    rw [hunits']
    constructor <;> linarith
  · -- the number is so large that the relative error covers another half
    constructor <;> linarith

/-- **Any other number** becomes a double that has millionths, about half a one off at most. -/
theorem exists_unpack_roundMillionth (h : x.toModel.unpack = .finite s n k hpos)
    (hsmall : 1 / 2 - 1 / 2 ^ 55 < magnitude x * 10 ^ 6)
    (hlarge : magnitude x * 10 ^ 6 < tooLarge) :
    ∃ (m : Nat) (e : Int) (hm : 0 < m), (roundMillionth x).toModel.unpack = .finite s m e hm ∧
      (1 / 2 : ℚ) < m * 2 ^ e * 10 ^ 6 ∧
      ∀ units : Nat, |units - (m * 2 ^ e * 10 ^ 6 : ℚ)| ≤ 1 / 2 →
        |units - magnitude x * 10 ^ 6| ≤ 1 / 2 + magnitude x * 10 ^ 6 / 2 ^ 51 := by
  obtain ⟨m, e, hm, hrounds, hmul⟩ := exists_unpack_millionths h
  rw [if_pos (hrounds.le_of_lt_tooLarge hm hlarge)] at hmul
  -- the product is rounded to one half at least, so that the whole number is not zero
  have hhalf : (1 / 2 : ℚ) ≤ m * 2 ^ e := by
    have hle := mul_le_mul_of_le canonical_half hm
      (hrounds.le_of_low_lt hm canonical_half (low_half_eq ▸ hsmall))
    norm_num at hle ⊢
    exact hle
  have hfull : 2 ^ 52 ≤ m := by
    refine hrounds.full hm ?_
    have hquarter : (2 : ℚ) ^ (-2 : Int) ≤ magnitude x * 10 ^ 6 := by
      norm_num at hsmall ⊢
      linarith
    exact (zpow_le_zpow_right₀ one_le_two (by decide)).trans hquarter
  obtain ⟨whole, hlow, hhigh, -, hfinite⟩ := exists_unpack_roundHalfAway hmul
  have hwhole : 0 < whole := by
    have : (0 : ℚ) < whole := by linarith
    exact_mod_cast this
  obtain ⟨m', e', hm', hround, hvalue⟩ := hfinite hwhole
  -- the third rounding, after which the nearest number of units is off by a half at most
  obtain ⟨m'', e'', hm'', hdiv, herror⟩ := exists_unpack_div_million hround hvalue hwhole
  refine ⟨m'', e'', hm'', hdiv, ?_, fun units hunits => ?_⟩
  · have hone : (1 : ℚ) ≤ whole := by exact_mod_cast hwhole
    rw [abs_sub_le_iff] at herror
    linarith
  · exact abs_units_sub_le (hrounds.abs_sub_le hfull) hlow hhigh herror hunits

/-! ## Texts -/

theorem numberText_eq (hx : x.isFinite) : numberText x =
    String.ofList (dropTrailing '.' (dropTrailing '0' (fixed 6 (roundMillionth x)).toList)) :=
  if_pos hx

/-- **A very large number** is written as an infinity. -/
theorem numberText_of_not_abs_lt (hx : x.isFinite) (h : ¬ x.abs < 1.797693134862316e302) :
    numberText x = if isNegative x then "-inf" else "inf" := by
  have hlarge := tooLarge_lt_of_not_abs_lt hx h
  rcases isFinite_iff.1 hx with ⟨s, hzero⟩ | ⟨s, n, k, hpos, hunpack⟩
  · rw [magnitude_of_zero hzero, zero_mul] at hlarge
    exact absurd hlarge (not_lt.2 (by rw [tooLarge]; positivity))
  · rw [numberText_eq hx, isNegative_of_unpack hunpack,
      fixed_of_infinity (unpack_roundMillionth_of_tooLarge hunpack hlarge)]
    cases s <;> decide

/-- **A number below half a millionth** is written as a zero with its sign. -/
theorem numberText_of_abs_lt (hx : x.isFinite) (h : x.abs < 5e-7) :
    numberText x = Layout.signed (isNegative x) ['0'] := by
  obtain ⟨s, hsign, hzero⟩ : ∃ s, isNegative x = (s == .negative) ∧
      (roundMillionth x).toModel.unpack = .zero s := by
    rcases isFinite_iff.1 hx with ⟨s, hzero⟩ | ⟨s, n, k, hpos, hunpack⟩
    · exact ⟨s, isNegative_of_zero hzero, unpack_roundMillionth_of_zero hzero⟩
    · exact ⟨s, isNegative_of_unpack hunpack,
        unpack_roundMillionth_of_lt hunpack (lt_low_half_of_abs_lt hx h)⟩
  rw [numberText_eq hx, hsign, fixed_of_zero hzero]
  cases s <;> decide

/-- **Every other number** is written as a trimmed numeral other than zero. -/
theorem exists_trimmed_numberText (hx : x.isFinite) (hsmall : ¬ x.abs < 5e-7)
    (hlarge : x.abs < 1.797693134862316e302) :
    ∃ units digits, 0 < units ∧ Trimmed 6 units digits ∧
      numberText x = Layout.signed (isNegative x) digits ∧
      |(units : ℚ) - magnitude x * 10 ^ 6| ≤ 1 / 2 + magnitude x * 10 ^ 6 / 2 ^ 51 := by
  have hsmall' := low_half_lt_of_not_abs_lt hx hsmall
  rcases isFinite_iff.1 hx with ⟨s, hzero⟩ | ⟨s, n, k, hpos, hunpack⟩
  · rw [magnitude_of_zero hzero] at hsmall'
    norm_num at hsmall'
  · obtain ⟨m, e, hm, hround, hhalf, herror⟩ :=
      exists_unpack_roundMillionth hunpack hsmall' (lt_tooLarge_of_abs_lt hx hlarge)
    obtain ⟨units, hunits, hfixed⟩ := exists_fixed_eq hround 6
    obtain ⟨digits, hdigits, htext⟩ := exists_trimmed_signed (s == .negative) units
    refine ⟨units, digits, ?_, hdigits, ?_, herror units hunits⟩
    · rw [abs_sub_le_iff] at hunits
      have : (0 : ℚ) < units := by linarith
      exact_mod_cast this
    · rw [numberText_eq hx, hfixed, htext, isNegative_of_unpack hunpack]

/-- **A zero with a sign** is the text of the numbers below half a millionth that have the sign. -/
theorem numberText_eq_zero_iff (hx : x.isFinite) (negative : Bool) :
    numberText x = Layout.signed negative ['0'] ↔ x.abs < 5e-7 ∧ isNegative x = negative := by
  constructor
  · intro htext
    by_cases hsmall : x.abs < 5e-7
    · rw [numberText_of_abs_lt hx hsmall] at htext
      exact ⟨hsmall, ((trimmed_zero 6).eq_zero_of_signed htext).1⟩
    · by_cases hlarge : x.abs < 1.797693134862316e302
      · obtain ⟨units, digits, hpos, hdigits, hsigned, -⟩ :=
          exists_trimmed_numberText hx hsmall hlarge
        exact absurd (hdigits.eq_zero_of_signed (hsigned.symm.trans htext)).2 hpos.ne'
      · have hinfinite : ∀ sign zero : Bool,
            (if sign then "-inf" else "inf") ≠ Layout.signed zero ['0'] := by decide
        rw [numberText_of_not_abs_lt hx hlarge] at htext
        exact absurd htext (hinfinite _ _)
  · rintro ⟨hsmall, rfl⟩
    exact numberText_of_abs_lt hx hsmall

/-- **How finite numbers are written.** Below about `1.8e302` a finite number is written with its
sign as a trimmed numeral of at most six places, which is off by half a millionth and one part in
`2 ^ 51` at most. From there on it is written as an infinity. The text is a zero exactly for the
numbers below half a millionth, and that zero has a minus sign exactly if the number has one. -/
theorem numberText_of_isFinite (hfinite : x.isFinite) :
    (x.abs < 1.797693134862316e302 → ∃ units digits, Trimmed 6 units digits ∧
      numberText x = Layout.signed (isNegative x) digits ∧
      |(units : ℚ) - magnitude x * 10 ^ 6| ≤ 1 / 2 + magnitude x * 10 ^ 6 / 2 ^ 51) ∧
    (¬ x.abs < 1.797693134862316e302 →
      numberText x = if isNegative x then "-inf" else "inf") ∧
    (numberText x = "0" ↔ x.abs < 5e-7 ∧ isNegative x = false) ∧
    (numberText x = "-0" ↔ x.abs < 5e-7 ∧ isNegative x = true) := by
  refine ⟨fun hlarge => ?_, numberText_of_not_abs_lt hfinite,
    numberText_eq_zero_iff hfinite false, numberText_eq_zero_iff hfinite true⟩
  by_cases hsmall : x.abs < 5e-7
  · refine ⟨0, ['0'], trimmed_zero 6, numberText_of_abs_lt hfinite hsmall, ?_⟩
    have hlow := lt_low_half_of_abs_lt hfinite hsmall
    have hnonneg := magnitude_nonneg x
    rw [abs_sub_le_iff, Nat.cast_zero]
    constructor <;> linarith
  · obtain ⟨units, digits, -, h⟩ := exists_trimmed_numberText hfinite hsmall hlarge
    exact ⟨units, digits, h⟩

/-- The double nearest to half a millionth is written as a millionth, here a negative one. -/
theorem half_millionth_written :
    (-5e-7 : Float).isFinite ∧ (-5e-7 : Float).abs < 1.797693134862316e302 ∧
      (∃ units digits, Trimmed 6 units digits ∧
        numberText (-5e-7) = Layout.signed true digits ∧
        |(units : ℚ) - magnitude (-5e-7) * 10 ^ 6| ≤
          1 / 2 + magnitude (-5e-7) * 10 ^ 6 / 2 ^ 51) ∧
      numberText (-5e-7) = "-0.000001" ∧ numberText (-5e-7) ≠ "-0" := by
  have hfinite : (-5e-7 : Float).isFinite := by decide +kernel
  have hlarge : (-5e-7 : Float).abs < 1.797693134862316e302 := by decide +kernel
  have hnegative : isNegative (-5e-7) = true := by decide +kernel
  have hsmall : ¬ (-5e-7 : Float).abs < 5e-7 := by decide +kernel
  obtain ⟨hnumeral, -, -, hzero⟩ := numberText_of_isFinite hfinite
  exact ⟨hfinite, hlarge, hnegative ▸ hnumeral hlarge, by decide +kernel,
    fun h => hsmall (hzero.1 h).1⟩

/-- A large finite number is written as an infinity, which is no numeral, and a small negative one
as a zero with a minus sign, unlike the positive one. -/
theorem large_and_small_numbers_written :
    (1e303 : Float).isFinite ∧ numberText 1e303 = "inf" ∧
      (∀ negative units digits, Trimmed 6 units digits →
        numberText 1e303 ≠ Layout.signed negative digits) ∧
      (-1e-7 : Float).isFinite ∧ numberText (-1e-7) = "-0" ∧ numberText 1e-7 = "0" := by
  have htext : numberText 1e303 = "inf" := by decide +kernel
  refine ⟨by decide +kernel, htext, ?_, by decide +kernel, by decide +kernel, by decide +kernel⟩
  intro negative units digits hdigits h
  obtain ⟨c, rest, hlist, hc⟩ := hdigits.exists_toList_signed negative
  rw [← h, htext] at hlist
  obtain ⟨rfl, -⟩ := List.cons.inj (hlist : ['i', 'n', 'f'] = c :: rest)
  exact absurd hc (by decide)

end Spreadsheet.CommandLine
