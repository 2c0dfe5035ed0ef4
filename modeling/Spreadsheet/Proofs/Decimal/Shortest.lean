import Spreadsheet.Proofs.Decimal.Places
import Spreadsheet.Proofs.Decimal.Scaling

/-! # What makes a decimal the shortest
Of the decimals that round to a double, the **shortest** is a multiple of the largest power of ten
that has such multiples, and the one of these that is nearest to the double, or the larger one of
two that are equally near. There is only one, and no decimal that rounds to the double has fewer
digits. The search over the rounding interval finds it, and written without a power of ten it is a
trimmed numeral. -/

namespace Spreadsheet.Decimal

open Float.Model UnpackedFloat

/-- The decimal is the one that stands for the double `m · 2 ^ e`. -/
structure IsShortest (d : Scaled) (m : Nat) (e : Int) : Prop where
  /-- It rounds to the double. -/
  rounds : RoundsTo (d.coefficient * 10 ^ d.exponent) m e
  /-- No multiple of a larger power of ten does. -/
  coarsest : ∀ (c : Nat) (k : Int), RoundsTo (c * 10 ^ k) m e → k ≤ d.exponent
  /-- No decimal with fewer digits does. -/
  fewest : ∀ (c : Nat) (k : Int), RoundsTo (c * 10 ^ k) m e →
    (digits d.coefficient).length ≤ (digits c).length
  /-- It is nearer than any other multiple of its power of ten that does, or equally near and
  larger. -/
  nearest : ∀ c : Nat, RoundsTo (c * 10 ^ d.exponent) m e →
    |(d.coefficient * 10 ^ d.exponent - m * 2 ^ e : ℚ)| < |(c * 10 ^ d.exponent - m * 2 ^ e : ℚ)| ∨
    |(d.coefficient * 10 ^ d.exponent - m * 2 ^ e : ℚ)| = |(c * 10 ^ d.exponent - m * 2 ^ e : ℚ)| ∧
      c ≤ d.coefficient

variable {m : Nat} {e : Int} {d d' : Scaled}

/-- **A double has one shortest decimal.** -/
theorem IsShortest.eq (h : IsShortest d m e) (h' : IsShortest d' m e) : d = d' := by
  obtain ⟨c, k⟩ := d
  obtain ⟨c', k'⟩ := d'
  obtain rfl : k = k' := le_antisymm (h'.coarsest c k h.rounds) (h.coarsest c' k' h'.rounds)
  -- either is at least as near as the other, so they are equally near and neither is larger
  have hle : c' ≤ c ∧ c ≤ c' := by
    rcases h.nearest c' h'.rounds with hlt | ⟨heq, hle⟩ <;>
      rcases h'.nearest c h.rounds with hlt' | ⟨heq', hle'⟩
    · exact absurd hlt' hlt.not_gt
    · exact absurd heq' hlt.ne'
    · exact absurd heq hlt'.ne'
    · exact ⟨hle, hle'⟩
  rw [Nat.le_antisymm hle.2 hle.1]

/-! ## Numbers between others -/

/-- What lies between two numbers that round to a double rounds to it. -/
theorem RoundsTo.of_le_of_le {x y z : ℚ} (hx : RoundsTo x m e) (hz : RoundsTo z m e) (hxy : x ≤ y)
    (hyz : y ≤ z) : RoundsTo y m e where
  low := hx.low.trans hxy
  high := hyz.trans hz.high
  odd hodd := ⟨(hx.odd hodd).1.trans_le hxy, hyz.trans_lt (hz.odd hodd).2⟩

/-- **On the largest power of ten a decimal has the fewest digits**: between it and a decimal with
fewer digits lies a larger power of ten. -/
theorem length_digits_le_of_coarsest (hm : Canonical m e)
    (hrounds : RoundsTo (d.coefficient * 10 ^ d.exponent) m e)
    (hcoarsest : ∀ (c : Nat) (k : Int), RoundsTo (c * 10 ^ k) m e → k ≤ d.exponent)
    (d' : Scaled) (h : RoundsTo (d'.coefficient * 10 ^ d'.exponent) m e) :
    (digits d.coefficient).length ≤ (digits d'.coefficient).length := by
  by_contra hfewer
  have hle := hcoarsest _ _ h
  have hlength := length_digits_pos d'.coefficient
  have hpower : ((1 : Nat) * 10 ^ d.scientificExponent : ℚ) = 10 ^ d.scientificExponent := by
    rw [Nat.cast_one, one_mul]
  have hexponent : d'.scientificExponent + 1 ≤ d.scientificExponent := by
    unfold Scaled.scientificExponent
    omega
  have hbelow : (d'.coefficient * 10 ^ d'.exponent : ℚ) ≤
      (1 : Nat) * 10 ^ d.scientificExponent := by
    rw [hpower]
    exact (scientificExponent_bounds (h.coefficient_pos hm)).2.le.trans
      (zpow_le_zpow_right₀ (by norm_num) hexponent)
  have habove : ((1 : Nat) * 10 ^ d.scientificExponent : ℚ) ≤ d.coefficient * 10 ^ d.exponent := by
    rw [hpower]
    exact (scientificExponent_bounds (hrounds.coefficient_pos hm)).1
  have := hcoarsest 1 _ (h.of_le_of_le hrounds hbelow habove)
  unfold Scaled.scientificExponent at this
  omega

/-! ## The search -/

namespace Interval

variable {i : Interval} {tie : Tie} {a b c k n : Nat} {narrow : Bool}

/-- What lies between two members of an interval is one. -/
theorem contains_of_le_of_le (ha : i.contains a = true) (hb : i.contains b = true) (han : a ≤ n)
    (hnb : n ≤ b) : i.contains n = true := by
  unfold contains at ha hb ⊢
  cases hclosed : i.closed <;>
    simp only [hclosed, if_true, Bool.false_eq_true, if_false, Bool.and_eq_true,
      decide_eq_true_eq] at ha hb ⊢ <;>
    omega

/-- **What the search takes from a grid is the nearest**, and the larger of two if ties go up. -/
theorem nearest_of_nearestMultiple? (hvalue : i.contains i.value = true)
    (h : i.nearestMultiple? .up k = some c) (hn : i.contains (n * Nat.pow 10 k) = true) :
    ((c * Nat.pow 10 k : Nat) - (i.value : Int)).natAbs <
        ((n * Nat.pow 10 k : Nat) - (i.value : Int)).natAbs ∨
      ((c * Nat.pow 10 k : Nat) - (i.value : Int)).natAbs =
        ((n * Nat.pow 10 k : Nat) - (i.value : Int)).natAbs ∧ n ≤ c := by
  have hstep : 0 < Nat.pow 10 k := Nat.pow_pos (by decide)
  have hbelow := Nat.div_mul_le_self i.value (Nat.pow 10 k)
  have habove : i.value < (i.value / Nat.pow 10 k + 1) * Nat.pow 10 k :=
    Nat.lt_mul_of_div_lt (Nat.lt_succ_self _) hstep
  have hcases := nearestMultiple?_cases h
  dsimp only at hcases
  -- one of the two neighbours lies between the other multiple and the number
  rcases Nat.lt_or_ge (i.value / Nat.pow 10 k) n with hlt | hle
  · have hmul : (i.value / Nat.pow 10 k + 1) * Nat.pow 10 k ≤ n * Nat.pow 10 k :=
      Nat.mul_le_mul_right _ hlt
    have hcontains := contains_of_le_of_le hvalue hn habove.le hmul
    rcases hcases with ⟨rfl, -, hnearer⟩ | ⟨rfl, -, -⟩
    · have := (hnearer hcontains).2 rfl
      omega
    · rcases Nat.lt_or_eq_of_le (Nat.add_one_le_of_lt hlt) with hlt | rfl
      · have := Nat.mul_lt_mul_of_pos_right hlt hstep
        omega
      · exact .inr ⟨rfl, le_rfl⟩
  · have hmul : n * Nat.pow 10 k ≤ i.value / Nat.pow 10 k * Nat.pow 10 k :=
      Nat.mul_le_mul_right _ hle
    have hcontains := contains_of_le_of_le hn hvalue hmul hbelow
    rcases hcases with ⟨rfl, -, -⟩ | ⟨rfl, -, hnearer⟩
    · rcases Nat.lt_or_eq_of_le hle with hlt | rfl
      · have := Nat.mul_lt_mul_of_pos_right hlt hstep
        omega
      · exact .inr ⟨rfl, le_rfl⟩
    · have := hnearer hcontains
      omega

/-- A grid that the search takes nothing from has no member of the interval. -/
theorem contains_eq_false_of_nearestMultiple?_eq_none (hvalue : i.contains i.value = true)
    (h : i.nearestMultiple? tie k = none) (n : Nat) :
    i.contains (n * Nat.pow 10 k) = false := by
  obtain ⟨hbelow, habove⟩ := not_contains_of_nearestMultiple?_eq_none h
  refine Bool.eq_false_iff.2 fun hn => ?_
  rcases Nat.lt_or_ge (i.value / Nat.pow 10 k) n with hlt | hle
  · refine Bool.eq_false_iff.1 habove (contains_of_le_of_le hvalue hn ?_ ?_)
    · exact (Nat.lt_mul_of_div_lt (Nat.lt_succ_self _) (Nat.pow_pos (by decide))).le
    · exact Nat.mul_le_mul_right _ hlt
  · exact Bool.eq_false_iff.1 hbelow (contains_of_le_of_le hn hvalue
      (Nat.mul_le_mul_right _ hle) (Nat.div_mul_le_self _ _))

/-- **The search finds the shortest decimal.** -/
theorem isShortest_shortest (hnarrow : narrow = true ↔ m = 2 ^ 52 ∧ -1074 < e)
    (hm : Canonical m e) : IsShortest ((ofBinary m e narrow).shortest .up) m e := by
  have hvalue : (ofBinary m e narrow).contains (ofBinary m e narrow).value = true :=
    contains_value hm.pos narrow
  obtain ⟨-, hhigh⟩ := low_lt_value_lt_high hm.pos e narrow
  obtain ⟨j, hexponent, htaken, hcoarser⟩ := coarsest_cases hvalue .up
    (Nat.repr (ofBinary m e narrow).high).length
  have hrounds := roundsTo_shortest hnarrow hm.pos .up
  rw [shortest] at hrounds ⊢
  generalize (ofBinary m e narrow).coarsest .up _ = d at hexponent htaken hrounds ⊢
  -- a decimal that rounds to the number is a member of the interval, on some grid of its unit
  have hgrid {c : Nat} {k : Nat}
      (h : RoundsTo (c * 10 ^ ((ofBinary m e narrow).exponent + k)) m e) :
      (ofBinary m e narrow).contains (c * Nat.pow 10 k) = true := by
    refine (contains_iff_roundsTo hnarrow hm.pos).2 ?_
    rw [zpow_add₀ (by norm_num), zpow_natCast, mul_comm (10 ^ _ : ℚ), ← mul_assoc] at h
    exact_mod_cast h
  have hcoarsest (c : Nat) (k : Int) (h : RoundsTo (c * 10 ^ k) m e) : k ≤ d.exponent := by
    by_contra hlt
    obtain ⟨k', rfl⟩ : ∃ k' : Nat, k = (ofBinary m e narrow).exponent + k' :=
      ⟨(k - (ofBinary m e narrow).exponent).toNat, by omega⟩
    have hnone : (ofBinary m e narrow).nearestMultiple? .up k' = none := by
      rcases Nat.lt_or_ge (Nat.repr (ofBinary m e narrow).high).length k' with hgt | hle
      · refine nearestMultiple?_eq_none (low_pos hm.pos) hhigh ?_
        exact (lt_pow_length_digits _).trans_le (Nat.pow_le_pow_right (by decide) hgt.le)
      · exact hcoarser k' (by omega) hle
    exact absurd (hgrid h)
      (Bool.eq_false_iff.1 (contains_eq_false_of_nearestMultiple?_eq_none hvalue hnone c))
  refine ⟨hrounds, hcoarsest, fun c k h =>
    length_digits_le_of_coarsest hm hrounds hcoarsest ⟨c, k⟩ h, fun c h => ?_⟩
  rw [hexponent] at h
  -- distances to the number are whole numbers of units
  have hdistance (c : Nat) : |(c * 10 ^ d.exponent - m * 2 ^ e : ℚ)| =
      (((c * Nat.pow 10 j : Nat) - ((ofBinary m e narrow).value : Int)).natAbs : ℚ) *
        10 ^ (ofBinary m e narrow).exponent := by
    rw [← value_ofBinary m e narrow, hexponent, zpow_add₀ (by norm_num), zpow_natCast,
      mul_comm (10 ^ _ : ℚ), ← mul_assoc, ← sub_mul, abs_mul,
      abs_of_pos (by positivity : (0 : ℚ) < 10 ^ (ofBinary m e narrow).exponent),
      Nat.cast_natAbs, Nat.pow_eq]
    push_cast
    rfl
  rw [hdistance, hdistance, mul_lt_mul_iff_left₀ (by positivity), mul_left_inj' (by positivity)]
  exact_mod_cast nearest_of_nearestMultiple? hvalue htaken (hgrid h)

end Interval

/-! ## Its text -/

/-- **Written without a power of ten**, the shortest decimal has no zero that could be left out. -/
theorem IsShortest.exists_trimmed (h : IsShortest d m e) (hm : Canonical m e) :
    ∃ places units : Nat, Trimmed places units (d.positional false) ∧
      (units : ℚ) = d.coefficient * 10 ^ d.exponent * 10 ^ places := by
  rcases positional_cases d with
    ⟨zeros, hexponent, htext⟩ | ⟨whole, fraction, hwhole, hne, hexponent, htext, hn⟩
  · obtain ⟨first, rest, hdigits, hfirst⟩ := exists_digits_eq_cons (h.rounds.coefficient_pos hm)
    have hwhole : IsWhole (digits d.coefficient ++ List.replicate zeros '0') :=
      .inr ⟨first, rest ++ List.replicate zeros '0', by rw [hdigits, List.cons_append], hfirst⟩
    refine ⟨0, d.coefficient * 10 ^ zeros * 10 ^ 0,
      htext ▸ .whole hwhole (denotes_digits_append_zeros d.coefficient zeros), ?_⟩
    rw [hexponent, zpow_natCast]
    push_cast
    rfl
  · have hwhole : IsWhole whole :=
      hwhole.elim .inl fun ⟨hne, hprefix⟩ => isWhole_of_prefix hne hprefix
    obtain ⟨front, last, rfl⟩ := (List.eq_nil_or_concat' fraction).resolve_left hne
    have hlast : last ≠ '0' := by
      rintro rfl
      -- without the zero at its end it would be a multiple of a larger power of ten
      rw [← List.append_assoc] at hn
      obtain ⟨n, -, hvalue⟩ := exists_denotes_of_append_zeros (k := 1)
        (List.append_ne_nil_of_left_ne_nil hwhole.ne_nil front) hn
      have hrounds := h.rounds
      rw [hvalue, Nat.cast_mul, mul_assoc, Nat.pow_one, Nat.cast_ofNat,
        ← zpow_one_add₀ (by norm_num), add_comm] at hrounds
      have := h.coarsest n _ hrounds
      omega
    have hlength : front.length + 1 + 0 = (front ++ [last]).length := by
      rw [List.length_append, List.length_singleton, Nat.add_zero]
    refine ⟨(front ++ [last]).length, d.coefficient * 10 ^ 0,
      htext ▸ .pointed hwhole hn hlast hlength, ?_⟩
    rw [hexponent, mul_assoc, zpow_neg, zpow_natCast, inv_mul_cancel₀ (by positivity), Nat.pow_zero,
      Nat.mul_one, mul_one]

end Spreadsheet.Decimal
