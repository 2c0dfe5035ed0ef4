import Spreadsheet.Precision
import Spreadsheet.Decimal.Layout
import Spreadsheet.Proofs.Decimal.Numerals
import Spreadsheet.Proofs.Decimal.Nearest

/-! # Shortest decimals read back
The rounding interval of a double, scaled to a power of ten, is the one of its canonical significand
and exponent, and the search for the shortest decimal stays in it. Written without a power of ten,
that decimal is digits and at most one point, and an unsigned numeral of the same value. So the text
of a double that is neither negative nor infinite nor NaN is **read back as the same double**. -/

namespace Spreadsheet.Decimal

open Float.Model UnpackedFloat

/-! ## The rounding interval -/

namespace Interval

variable {i : Interval} {tie : Tie} {c k n m : Nat} {e : Int}

/-- **What the search takes from a grid** is one of the two multiples next to the number. It lies in
the interval, and if the other one does too, it is not farther from the number, and nearer to it
where a tie goes up to the other one. -/
theorem nearestMultiple?_cases (h : i.nearestMultiple? tie k = some c) :
    let below := i.value / Nat.pow 10 k * Nat.pow 10 k
    let above := (i.value / Nat.pow 10 k + 1) * Nat.pow 10 k
    (c = i.value / Nat.pow 10 k ∧ i.contains below = true ∧ (i.contains above = true →
      i.value - below ≤ above - i.value ∧ (tie = .up → i.value - below < above - i.value))) ∨
    (c = i.value / Nat.pow 10 k + 1 ∧ i.contains above = true ∧
      (i.contains below = true → above - i.value ≤ i.value - below)) := by
  intro below above
  unfold nearestMultiple? at h
  dsimp only at h
  split at h
  · exact nomatch h
  · rename_i hbelow habove
    obtain rfl := Option.some.inj h
    exact .inl ⟨rfl, hbelow, fun hother => absurd (hother.symm.trans habove) (by decide)⟩
  · rename_i hbelow habove
    obtain rfl := Option.some.inj h
    exact .inr ⟨rfl, habove, fun hother => absurd (hother.symm.trans hbelow) (by decide)⟩
  · rename_i hbelow habove
    split at h
    · rename_i hcompare
      have hlt := Nat.compare_eq_lt.1 hcompare
      obtain rfl := Option.some.inj h
      exact .inl ⟨rfl, hbelow, fun _ => ⟨hlt.le, fun _ => hlt⟩⟩
    · rename_i hcompare
      obtain rfl := Option.some.inj h
      exact .inr ⟨rfl, habove, fun _ => (Nat.compare_eq_gt.1 hcompare).le⟩
    · rename_i hcompare
      have heq := Nat.compare_eq_eq.1 hcompare
      obtain rfl := Option.some.inj h
      split
      · exact .inr ⟨rfl, habove, fun _ => heq.ge⟩
      · split
        · exact .inl ⟨rfl, hbelow, fun _ => ⟨heq.le, nofun⟩⟩
        · exact .inr ⟨rfl, habove, fun _ => heq.ge⟩

theorem contains_of_nearestMultiple? (h : i.nearestMultiple? tie k = some c) :
    i.contains (c * Nat.pow 10 k) = true := by
  rcases nearestMultiple?_cases h with ⟨rfl, hbelow, -⟩ | ⟨rfl, habove, -⟩
  · exact hbelow
  · exact habove

/-- Where the search takes nothing from a grid, neither of the two lies in the interval. -/
theorem not_contains_of_nearestMultiple?_eq_none (h : i.nearestMultiple? tie k = none) :
    i.contains (i.value / Nat.pow 10 k * Nat.pow 10 k) = false ∧
      i.contains ((i.value / Nat.pow 10 k + 1) * Nat.pow 10 k) = false := by
  unfold nearestMultiple? at h
  dsimp only at h
  split at h
  · exact ⟨‹_›, ‹_›⟩
  · exact nomatch h
  · exact nomatch h
  · split at h <;> exact nomatch h

/-- **The search ends on the first grid that it takes something from**, as it goes down from one
power of ten of the unit to the next. -/
theorem coarsest_cases (hvalue : i.contains i.value = true) (tie : Tie) (k : Nat) :
    ∃ j : Nat, (i.coarsest tie k).exponent = i.exponent + j ∧
      i.nearestMultiple? tie j = some (i.coarsest tie k).coefficient ∧
      ∀ j', j < j' → j' ≤ k → i.nearestMultiple? tie j' = none := by
  induction k with
  | zero =>
    refine ⟨0, (Int.add_zero _).symm, ?_, fun j' hj hle => absurd hle (Nat.not_le.2 hj)⟩
    rw [coarsest]
    cases h : i.nearestMultiple? tie 0 with
    | none =>
      -- the number itself lies on the unit grid
      have hnot := (not_contains_of_nearestMultiple?_eq_none h).1
      rw [Nat.pow_eq, pow_zero, Nat.div_one, mul_one] at hnot
      exact nomatch hvalue.symm.trans hnot
    | some c => rfl
  | succ k ih =>
    rw [coarsest]
    split
    · rename_i c h
      exact ⟨k + 1, rfl, h, fun j' hj hle => absurd hle (Nat.not_le.2 hj)⟩
    · rename_i hnone
      obtain ⟨j, hexponent, htaken, hcoarser⟩ := ih
      refine ⟨j, hexponent, htaken, fun j' hj hle => ?_⟩
      rcases Nat.lt_or_eq_of_le hle with hlt | rfl
      · exact hcoarser j' hj (Nat.le_of_lt_succ hlt)
      · exact hnone

/-- The unit of a rounding interval is a quarter of the last bit. -/
theorem scale_mul (e : Int) :
    ((Nat.pow 2 (e - 2).toNat * Nat.pow 5 (2 - e).toNat : Nat) : ℚ) *
      10 ^ (-((2 - e).toNat : Int)) = 2 ^ (e - 2) := by
  have hsplit : e - 2 = ((e - 2).toNat : Int) - ((2 - e).toNat : Int) := by omega
  have hten : (10 : ℚ) ^ (2 - e).toNat = 2 ^ (2 - e).toNat * 5 ^ (2 - e).toNat := by
    rw [← mul_pow]
    norm_num
  rw [Nat.cast_mul, Nat.pow_eq, Nat.pow_eq, Nat.cast_pow, Nat.cast_pow, Nat.cast_ofNat,
    Nat.cast_ofNat, zpow_neg, zpow_natCast, hten, hsplit, zpow_sub₀ two_ne_zero, zpow_natCast,
    zpow_natCast, ← hsplit]
  field_simp

/-- A number lies between the ends of its rounding interval. -/
theorem low_lt_value_lt_high (hpos : 0 < m) (e : Int) (narrow : Bool) :
    (ofBinary m e narrow).low < (ofBinary m e narrow).value ∧
      (ofBinary m e narrow).value < (ofBinary m e narrow).high := by
  have hscale : 0 < Nat.pow 2 (e - 2).toNat * Nat.pow 5 (2 - e).toNat :=
    Nat.mul_pos (Nat.pow_pos (by decide)) (Nat.pow_pos (by decide))
  refine ⟨Nat.mul_lt_mul_of_pos_right ?_ hscale, Nat.mul_lt_mul_of_pos_right ?_ hscale⟩
  · split <;> omega
  · omega

/-- A number lies in its rounding interval. -/
theorem contains_value (hpos : 0 < m) (narrow : Bool) :
    (ofBinary m e narrow).contains (ofBinary m e narrow).value = true := by
  obtain ⟨hlow, hhigh⟩ := low_lt_value_lt_high hpos e narrow
  unfold contains
  split <;> simp [hlow, hhigh, hlow.le, hhigh.le]

/-- What the parts of a rounding interval are worth. -/
theorem mul_scale (a m : Nat) (e : Int) (narrow : Bool) :
    ((a * (Nat.pow 2 (e - 2).toNat * Nat.pow 5 (2 - e).toNat) : Nat) : ℚ) *
      10 ^ (ofBinary m e narrow).exponent = a / 4 * 2 ^ e := by
  have hunit : (2 : ℚ) ^ (e - 2) = 2 ^ e / 4 := by
    rw [zpow_sub₀ two_ne_zero]
    norm_num
  have hexponent : (ofBinary m e narrow).exponent = -((2 - e).toNat : Int) := rfl
  rw [hexponent, Nat.cast_mul, mul_assoc, scale_mul, hunit]
  ring

theorem value_ofBinary (m : Nat) (e : Int) (narrow : Bool) :
    ((ofBinary m e narrow).value : ℚ) * 10 ^ (ofBinary m e narrow).exponent = m * 2 ^ e := by
  refine (mul_scale _ _ _ _).trans ?_
  push_cast
  ring

/-- The ends of a rounding interval in units of the last bit. -/
theorem ends_ofBinary {narrow : Bool} (hnarrow : narrow = true ↔ m = 2 ^ 52 ∧ -1074 < e)
    (hpos : 0 < m) :
    ((ofBinary m e narrow).low : ℚ) * 10 ^ (ofBinary m e narrow).exponent =
        (m - halfGapBelow m e) * 2 ^ e ∧
      ((ofBinary m e narrow).high : ℚ) * 10 ^ (ofBinary m e narrow).exponent =
        (m + 1 / 2) * 2 ^ e := by
  constructor
  · refine (mul_scale _ _ _ _).trans ?_
    rw [halfGapBelow]
    by_cases h : narrow = true
    · rw [if_pos h, if_pos (hnarrow.1 h), Nat.cast_sub (by omega)]
      push_cast
      ring
    · rw [if_neg h, if_neg (mt hnarrow.2 h), Nat.cast_sub (by omega)]
      push_cast
      ring
  · refine (mul_scale _ _ _ _).trans ?_
    push_cast
    ring

/-- **The rounding interval has what rounds to the number.** -/
theorem contains_iff_roundsTo {narrow : Bool} (hnarrow : narrow = true ↔ m = 2 ^ 52 ∧ -1074 < e)
    (hpos : 0 < m) : (ofBinary m e narrow).contains n = true ↔
      RoundsTo (n * 10 ^ (ofBinary m e narrow).exponent) m e := by
  obtain ⟨hlow, hhigh⟩ := ends_ofBinary hnarrow hpos
  have hten : (0 : ℚ) < 10 ^ (ofBinary m e narrow).exponent := by positivity
  have hle {a b : Nat} : a ≤ b ↔ (a * 10 ^ (ofBinary m e narrow).exponent : ℚ) ≤
      b * 10 ^ (ofBinary m e narrow).exponent := by
    rw [mul_le_mul_iff_left₀ hten, Nat.cast_le]
  have hlt {a b : Nat} : a < b ↔ (a * 10 ^ (ofBinary m e narrow).exponent : ℚ) <
      b * 10 ^ (ofBinary m e narrow).exponent := by
    rw [mul_lt_mul_iff_left₀ hten, Nat.cast_lt]
  have hclosed : (ofBinary m e narrow).closed = decide (m % 2 = 0) := rfl
  unfold contains
  rw [hclosed]
  by_cases heven : m % 2 = 0
  · rw [if_pos (decide_eq_true heven), Bool.and_eq_true, decide_eq_true_eq, decide_eq_true_eq, hle,
      hle, hlow, hhigh]
    exact ⟨fun h => ⟨h.1, h.2, fun hodd => absurd hodd (by omega)⟩, fun h => ⟨h.low, h.high⟩⟩
  · rw [if_neg (by simpa using heven), Bool.and_eq_true, decide_eq_true_eq, decide_eq_true_eq, hlt,
      hlt, hlow, hhigh]
    exact ⟨fun h => ⟨h.1.le, h.2.le, fun _ => h⟩, fun h => h.odd (by omega)⟩

/-- **The shortest decimal rounds to the number.** -/
theorem roundsTo_shortest {narrow : Bool} (hnarrow : narrow = true ↔ m = 2 ^ 52 ∧ -1074 < e)
    (hpos : 0 < m) (tie : Tie) :
    RoundsTo (((ofBinary m e narrow).shortest tie).coefficient *
      10 ^ ((ofBinary m e narrow).shortest tie).exponent) m e := by
  obtain ⟨j, hexponent, htaken, -⟩ := coarsest_cases (contains_value hpos narrow) tie
    (Nat.repr (ofBinary m e narrow).high).length
  have h := (contains_iff_roundsTo hnarrow hpos).1 (contains_of_nearestMultiple? htaken)
  rw [shortest, hexponent, zpow_add₀ (by norm_num), zpow_natCast, mul_comm (10 ^ _ : ℚ),
    ← mul_assoc]
  exact_mod_cast h

end Interval

/-! ## Positional texts -/

variable {digits : List Char} {n : Nat}

/-- Digits denote the number that they spell. -/
theorem denotes_of_digits (hne : digits ≠ []) (hdigits : ∀ c ∈ digits, c.isDigit)
    (h : Nat.ofDigitChars 10 digits 0 = n) : Denotes 10 digits n :=
  natural?_eq_some_iff.1 (h ▸ natural?_ten hne hdigits)

theorem isDigit_of_mem_digits {c : Char} (h : c ∈ Decimal.digits n) : c.isDigit := by
  rw [Decimal.digits, Nat.toList_repr] at h
  exact Nat.isDigit_of_mem_toDigits (by decide) (by decide) h

theorem digits_ne_nil (n : Nat) : Decimal.digits n ≠ [] := by
  rw [Decimal.digits, Nat.toList_repr]
  exact Nat.toDigits_ne_nil

theorem ofDigitChars_digits (n : Nat) : Nat.ofDigitChars 10 (Decimal.digits n) 0 = n := by
  rw [Decimal.digits, Nat.toList_repr, Nat.ofDigitChars_ten_toDigits]

/-- The first digit of a number other than zero is not zero. -/
theorem exists_digits_eq_cons (hn : 0 < n) : ∃ c rest, Decimal.digits n = c :: rest ∧ c ≠ '0' := by
  obtain ⟨c, rest, hc, -, hnumeral⟩ := dropWhile_zero_of_ofDigitChars
    (fun _ => isDigit_of_mem_digits) (ofDigitChars_digits n) hn.ne'
  exact ⟨c, rest, by rw [Decimal.digits, Nat.toList_repr, hnumeral], hc⟩

theorem isDigit_of_mem_replicate {c : Char} {k : Nat} (h : c ∈ List.replicate k '0') :
    c.isDigit := by
  rw [List.eq_of_mem_replicate h]
  rfl

/-- Zeros after digits multiply by a power of ten. -/
theorem denotes_digits_append_zeros (n k : Nat) :
    Denotes 10 (Decimal.digits n ++ List.replicate k '0') (n * 10 ^ k) := by
  refine denotes_of_digits (List.append_ne_nil_of_left_ne_nil (digits_ne_nil n) _) ?_ ?_
  · exact fun c hc => (List.mem_append.1 hc).elim isDigit_of_mem_digits isDigit_of_mem_replicate
  · rw [Nat.ofDigitChars_append, Nat.ofDigitChars_replicate_zero, ofDigitChars_digits, Nat.mul_comm]

/-- Zeros in front of digits do not count. -/
theorem denotes_zeros_append_digits (k n : Nat) :
    Denotes 10 (List.replicate k '0' ++ Decimal.digits n) n := by
  refine denotes_of_digits (List.append_ne_nil_of_right_ne_nil _ (digits_ne_nil n)) ?_ ?_
  · exact fun c hc => (List.mem_append.1 hc).elim isDigit_of_mem_replicate isDigit_of_mem_digits
  · rw [Nat.ofDigitChars_append, Nat.ofDigitChars_replicate_zero, Nat.mul_zero, ofDigitChars_digits]

/-- A decimal written without a power of ten has zeros after its digits or a point among them, with
zeros in front where it needs them. In front of the point is one zero or a part of its digits. -/
theorem positional_cases (d : Scaled) :
    (∃ zeros : Nat, d.exponent = zeros ∧
      d.positional false = Decimal.digits d.coefficient ++ List.replicate zeros '0') ∨
    ∃ whole fraction, (whole = ['0'] ∨ whole ≠ [] ∧ whole <+: Decimal.digits d.coefficient) ∧
      fraction ≠ [] ∧ d.exponent = -(fraction.length : Int) ∧
      d.positional false = whole ++ '.' :: fraction ∧
      Denotes 10 (whole ++ fraction) d.coefficient := by
  obtain ⟨n, exponent⟩ := d
  cases exponent with
  | ofNat zeros => exact .inl ⟨zeros, rfl, List.append_nil _⟩
  | negSucc k =>
    refine .inr ?_
    by_cases hlength : (Decimal.digits n).length ≤ k + 1
    · refine ⟨['0'], List.replicate (k + 1 - (Decimal.digits n).length) '0' ++ Decimal.digits n,
        .inl rfl, List.append_ne_nil_of_right_ne_nil _ (digits_ne_nil n), ?_, ?_,
        denotes_zeros_append_digits (k + 1 - (Decimal.digits n).length + 1) n⟩
      · rw [List.length_append, List.length_replicate, Nat.sub_add_cancel hlength]
        rfl
      · exact if_pos hlength
    · refine ⟨(Decimal.digits n).take ((Decimal.digits n).length - (k + 1)),
        (Decimal.digits n).drop ((Decimal.digits n).length - (k + 1)),
        .inr ⟨fun h => ?_, List.take_prefix _ _⟩, fun h => ?_, ?_, ?_, ?_⟩
      · rcases List.take_eq_nil_iff.1 h with h | h
        · omega
        · exact digits_ne_nil n h
      · have := List.drop_eq_nil_iff.1 h
        omega
      · rw [List.length_drop, Nat.sub_sub_self (by omega)]
        rfl
      · exact if_neg hlength
      · rw [List.take_append_drop]
        exact denotes_zeros_append_digits 0 n

/-- **A decimal written without a power of ten** is an unsigned numeral of the same value. -/
theorem unsigned_positional (d : Scaled) :
    ∃ (c : Nat) (k : Int), Unsigned (d.positional false) (toDouble c k) ∧
      (c * 10 ^ k : ℚ) = d.coefficient * 10 ^ d.exponent := by
  rcases positional_cases d with
    ⟨zeros, hexponent, htext⟩ | ⟨whole, fraction, -, -, hexponent, htext, hn⟩
  · refine ⟨d.coefficient * 10 ^ zeros, (0 : Nat), ?_, ?_⟩
    · have := Unsigned.whole (denotes_digits_append_zeros d.coefficient zeros) .absent
      rwa [List.append_nil, ← htext] at this
    · rw [hexponent, Nat.cast_zero, zpow_zero, mul_one, zpow_natCast]
      push_cast
      rfl
  · refine ⟨d.coefficient, (0 : Nat) - (fraction.length : Int), ?_, ?_⟩
    · have := Unsigned.pointed hn .absent
      rwa [List.append_nil, ← htext] at this
    · rw [hexponent, Nat.cast_zero, zero_sub]

/-- It is made of digits and at most one point. -/
theorem isDigit_or_of_mem_positional {d : Scaled} {c : Char} (h : c ∈ d.positional false) :
    c.isDigit ∨ c = '.' := by
  rcases positional_cases d with ⟨zeros, -, htext⟩ | ⟨whole, fraction, -, -, -, htext, hn⟩
  · rw [htext] at h
    exact .inl ((List.mem_append.1 h).elim isDigit_of_mem_digits isDigit_of_mem_replicate)
  · rw [htext] at h
    rcases List.mem_append.1 h with h | h
    · exact .inl (hn.isDigit_of_mem (List.mem_append_left _ h))
    · rcases List.mem_cons.1 h with rfl | h
      · exact .inr rfl
      · exact .inl (hn.isDigit_of_mem (List.mem_append_right _ h))

/-! ## Reading back -/

variable {x : Float}

/-- The number is the one that its unpacked form is packed to. -/
theorem eq_of_unpack {f : UnpackedFloat} (h : x.toModel.unpack = f) :
    x = Float.ofModel (Float.Model.pack f) :=
  h ▸ (Float.ofBits_toBits x).symm

/-- The plain text of zero is a zero. -/
theorem unsigned_plain_zero : Unsigned
    (plain.render (.ofDouble (Float.ofModel (Float.Model.pack (.zero .positive))))).toList
    (Float.ofModel (Float.Model.pack (.zero .positive))) := by
  have hzero : toDouble 0 (0 : Nat) = Float.ofModel (Float.Model.pack (.zero .positive)) := by
    decide +kernel
  have htext : (plain.render (.ofDouble (Float.ofModel
      (Float.Model.pack (.zero .positive))))).toList = ['0'] ++ [] := by
    decide +kernel
  rw [htext, ← hzero]
  exact .whole (.digit rfl) .absent

/-- The text of a finite double other than zero is its shortest decimal in the layout, with a sign
in front if it is negative. -/
theorem render_of_unpack {l : Layout} {tie : Tie} {m : Nat} {e : Int} {sign : Sign} {hpos : 0 < m}
    (htie : l.tie = tie) (h : x.toModel.unpack = .finite sign m e hpos) :
    l.render (.ofDouble x) = Layout.signed (sign == .negative)
      (l.ofDecimal ((Interval.ofBinary m e (decide (m = 2 ^ 52 ∧ -1074 < e))).shortest tie)) := by
  rw [Value.ofDouble, h, ← htie]
  rfl

/-- The plain text of a finite number other than zero is its shortest decimal without a power of
ten. -/
theorem plain_eq_positional {m : Nat} {e : Int} {hpos : 0 < m}
    (h : x.toModel.unpack = .finite .positive m e hpos) :
    ∃ d : Scaled, (plain.render (.ofDouble x)).toList = d.positional false ∧
      RoundsTo (d.coefficient * 10 ^ d.exponent) m e := by
  refine ⟨(Interval.ofBinary m e (decide (m = 2 ^ 52 ∧ -1074 < e))).shortest .up, ?_,
    Interval.roundsTo_shortest decide_eq_true_iff hpos .up⟩
  rw [render_of_unpack rfl h]
  exact String.toList_ofList

/-- **The plain text of a number is read back as the number**, unless it is negative, infinite or
NaN. -/
theorem unsigned_plain (h : Nonnegative x.toModel.unpack) (hfinite : x ≠ Spreadsheet.infinity) :
    Unsigned (plain.render (.ofDouble x)).toList x := by
  generalize hunpack : x.toModel.unpack = f at h
  have hx := eq_of_unpack hunpack
  cases h with
  | infinity => exact absurd hx hfinite
  | zero => exact hx ▸ unsigned_plain_zero
  | finite =>
    obtain ⟨hm, he⟩ := canonical_of_unpack hunpack
    obtain ⟨d, htext, hrounds⟩ := plain_eq_positional hunpack
    obtain ⟨c, k, hunsigned, hvalue⟩ := unsigned_positional d
    rw [← hvalue] at hrounds
    rwa [htext, hx, ← toDouble_eq hm he hrounds]

/-- It is made of digits and points. -/
theorem isDigit_or_of_mem_plain (h : Nonnegative x.toModel.unpack)
    (hfinite : x ≠ Spreadsheet.infinity) {c : Char} (hc : c ∈ (plain.render (.ofDouble x)).toList) :
    c.isDigit ∨ c = '.' := by
  generalize hunpack : x.toModel.unpack = f at h
  have hx := eq_of_unpack hunpack
  cases h with
  | infinity => exact absurd hx hfinite
  | zero =>
    have htext : (plain.render (.ofDouble x)).toList = (⟨0, 0⟩ : Scaled).positional false := by
      rw [hx]
      decide +kernel
    exact isDigit_or_of_mem_positional (htext ▸ hc)
  | finite =>
    obtain ⟨d, htext, -⟩ := plain_eq_positional hunpack
    exact isDigit_or_of_mem_positional (htext ▸ hc)

end Spreadsheet.Decimal
