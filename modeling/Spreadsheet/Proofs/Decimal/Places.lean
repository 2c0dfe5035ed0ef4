import Spreadsheet.Decimal.Fixed
import Spreadsheet.Proofs.Decimal.RoundTrip

/-! # Numerals with few places
A number with a fixed count of digits after the point is its whole part, a point and these digits,
and together they denote the number of units of the last place that is nearest to it. Without zeros
and a point that could be left out it would be a **trimmed numeral**. -/

namespace Spreadsheet.Decimal

open Float.Model UnpackedFloat

/-! ## Trimmed numerals -/

/-- The text is a zero, or its first character is no zero. -/
def IsWhole (text : List Char) : Prop :=
  text = ['0'] ∨ ∃ c rest, text = c :: rest ∧ c ≠ '0'

/-- The text is a numeral with at most so many digits after the point and with no zero or point that
could be left out, and the number of units of the last place that it denotes. -/
inductive Trimmed (places : Nat) : Nat → List Char → Prop
  /-- Digits without a point. -/
  | whole {whole : List Char} {n : Nat} :
    IsWhole whole → Denotes 10 whole n → Trimmed places (n * 10 ^ places) whole
  /-- Digits with a point among them and no zero at the end. -/
  | pointed {whole fraction : List Char} {last : Char} {n k : Nat} :
    IsWhole whole → Denotes 10 (whole ++ (fraction ++ [last])) n → last ≠ '0' →
      fraction.length + 1 + k = places →
      Trimmed places (n * 10 ^ k) (whole ++ '.' :: (fraction ++ [last]))

variable {places units k m : Nat} {e : Int} {text digits : List Char} {x : Float} {s : Sign}
  {hpos : 0 < m}

theorem IsWhole.ne_nil (h : IsWhole text) : text ≠ [] := by
  rcases h with rfl | ⟨c, rest, rfl, -⟩ <;> exact List.cons_ne_nil _ _

/-- Zeros at the end multiply by a power of ten. -/
theorem exists_denotes_of_append_zeros (hne : digits ≠ [])
    (h : Denotes 10 (digits ++ List.replicate k '0') units) :
    ∃ n, Denotes 10 digits n ∧ units = n * 10 ^ k := by
  have hdigits : ∀ c ∈ digits, c.isDigit := fun c hc => h.isDigit_of_mem (List.mem_append_left _ hc)
  refine ⟨_, denotes_of_digits hne hdigits rfl, ?_⟩
  have hvalue := natural?_ten h.ne_nil fun c hc => h.isDigit_of_mem hc
  rw [natural?_eq_some_iff.2 h, Nat.ofDigitChars_append, Nat.ofDigitChars_replicate_zero] at hvalue
  exact (Option.some.inj hvalue).trans (Nat.mul_comm _ _)

/-- A trimmed numeral starts with a digit. -/
theorem Trimmed.exists_cons (h : Trimmed places units text) :
    ∃ c rest, text = c :: rest ∧ c.isDigit := by
  cases h with
  | whole hwhole hn =>
    obtain ⟨c, rest, rfl⟩ := List.exists_cons_of_ne_nil hwhole.ne_nil
    exact ⟨c, rest, rfl, hn.isDigit_of_mem List.mem_cons_self⟩
  | pointed hwhole hn =>
    obtain ⟨c, rest, rfl⟩ := List.exists_cons_of_ne_nil hwhole.ne_nil
    exact ⟨c, _, rfl, hn.isDigit_of_mem List.mem_cons_self⟩

theorem trimmed_zero (places : Nat) : Trimmed places 0 ['0'] :=
  Nat.zero_mul (10 ^ places) ▸ .whole (.inl rfl) (.digit rfl)

/-- The numeral of a zero denotes no units. -/
theorem Trimmed.eq_zero (h : Trimmed places units ['0']) : units = 0 := by
  generalize htext : ['0'] = text at h
  cases h with
  | whole hwhole hn =>
    rw [← htext] at hn
    obtain rfl := Option.some.inj ((natural?_eq_some_iff.2 hn).symm.trans rfl)
    exact Nat.zero_mul _
  | pointed hwhole =>
    obtain ⟨c, rest, rfl⟩ := List.exists_cons_of_ne_nil hwhole.ne_nil
    obtain ⟨-, hrest⟩ := List.cons.inj htext
    exact absurd hrest.symm (List.append_ne_nil_of_right_ne_nil _ (List.cons_ne_nil _ _))

/-- With a sign it starts with a digit or a minus sign. -/
theorem Trimmed.exists_toList_signed (h : Trimmed places units digits) (negative : Bool) :
    ∃ c rest, (Layout.signed negative digits).toList = c :: rest ∧ (c.isDigit ∨ c = '-') := by
  obtain ⟨c, rest, rfl, hc⟩ := h.exists_cons
  rw [Layout.signed, String.toList_ofList]
  cases negative with
  | false => exact ⟨c, rest, rfl, .inl hc⟩
  | true => exact ⟨'-', c :: rest, rfl, .inr rfl⟩

/-- A zero with a sign is the text of no other number. -/
theorem Trimmed.eq_zero_of_signed {negative negative' : Bool} (h : Trimmed places units digits)
    (htext : Layout.signed negative digits = Layout.signed negative' ['0']) :
    negative = negative' ∧ units = 0 := by
  obtain ⟨c, rest, rfl, hc⟩ := h.exists_cons
  have hminus : c ≠ '-' := fun hc' => absurd (hc' ▸ hc) (by decide)
  have hlist := congrArg String.toList htext
  rw [Layout.signed, Layout.signed, String.toList_ofList, String.toList_ofList] at hlist
  cases negative <;> cases negative'
  case false.false =>
    obtain ⟨rfl, rfl⟩ := List.cons.inj hlist
    exact ⟨rfl, h.eq_zero⟩
  case false.true => exact absurd (List.cons.inj hlist).1 hminus
  case true.false => exact nomatch (List.cons.inj hlist).1
  case true.true =>
    obtain ⟨rfl, rfl⟩ := List.cons.inj (List.cons.inj hlist).2
    exact ⟨rfl, h.eq_zero⟩

/-! ## Fixed places -/

theorem digits_zero : Decimal.digits 0 = ['0'] := by
  decide

theorem withPoint_succ (k units : Nat) :
    withPoint (k + 1) units = Scaled.positional ⟨units, .negSucc k⟩ false := by
  have hlength := List.length_pos_of_ne_nil (digits_ne_nil units)
  unfold withPoint Scaled.positional
  dsimp only
  split
  · rename_i hle
    have hzeros : k + 1 + 1 - (Decimal.digits units).length =
        k + 1 - (Decimal.digits units).length + 1 := by omega
    rw [hzeros, List.replicate_succ, List.length_append, List.length_cons, List.length_replicate]
    have hone : k + 1 - (Decimal.digits units).length + 1 + (Decimal.digits units).length -
        (k + 1) = 1 := by omega
    rw [hone]
    rfl
  · rename_i hlt
    have hzeros : k + 1 + 1 - (Decimal.digits units).length = 0 := by omega
    rw [hzeros, List.replicate_zero, List.nil_append]

/-- The first digits of a number are a whole number. -/
theorem isWhole_of_prefix (hne : text ≠ []) (h : text <+: Decimal.digits units) : IsWhole text := by
  obtain ⟨c, rest, rfl⟩ := List.exists_cons_of_ne_nil hne
  obtain ⟨more, hmore⟩ := h
  rcases Nat.eq_zero_or_pos units with rfl | hunits
  · obtain ⟨rfl, hrest⟩ := List.cons.inj (hmore.trans digits_zero)
    rw [List.append_eq_nil_iff.1 hrest |>.1]
    exact .inl rfl
  · obtain ⟨first, others, hdigits, hfirst⟩ := exists_digits_eq_cons hunits
    obtain ⟨rfl, -⟩ := List.cons.inj (hmore.trans hdigits)
    exact .inr ⟨c, rest, rfl, hfirst⟩

/-- **A number with a fixed count of places** is its whole part, a point and so many digits. -/
theorem withPoint_cases (hplaces : 0 < places) (units : Nat) :
    ∃ whole fraction, IsWhole whole ∧ fraction.length = places ∧
      Denotes 10 (whole ++ fraction) units ∧ withPoint places units = whole ++ '.' :: fraction := by
  obtain ⟨k, rfl⟩ : ∃ k, places = k + 1 := ⟨places - 1, by omega⟩
  rw [withPoint_succ]
  rcases positional_cases ⟨units, .negSucc k⟩ with
    ⟨zeros, hzeros, -⟩ | ⟨whole, fraction, hwhole, -, hlength, htext, hn⟩
  · exact nomatch hzeros
  · refine ⟨whole, fraction, ?_, ?_, hn, htext⟩
    · exact hwhole.elim .inl fun ⟨hne, hprefix⟩ => isWhole_of_prefix hne hprefix
    · rw [Int.negSucc_eq, neg_inj] at hlength
      exact_mod_cast hlength.symm

/-! ## Rounding -/

/-- **The nearest natural number** to a quotient is at most a half away from it. -/
theorem abs_roundDiv_sub_le (num den : Nat) (hden : 0 < den) (tie : Tie) :
    |(roundDiv num den tie : ℚ) - num / den| ≤ 1 / 2 := by
  have hden' : (0 : ℚ) < den := by exact_mod_cast hden
  have hdiv : (num : ℚ) / den = (num / den : Nat) + (num % den : Nat) / den := by
    rw [div_eq_iff hden'.ne', add_mul, div_mul_cancel₀ _ hden'.ne']
    exact_mod_cast (Nat.div_add_mod' num den).symm
  have hnonneg : (0 : ℚ) ≤ (num % den : Nat) / den := by positivity
  have hlt : ((num % den : Nat) : ℚ) / den < 1 :=
    (div_lt_one hden').2 (by exact_mod_cast Nat.mod_lt num hden)
  have hhalf : ((num % den : Nat) : ℚ) / den ≤ 1 / 2 ↔ 2 * (num % den) ≤ den := by
    rw [div_le_div_iff₀ hden' two_pos, one_mul, mul_comm]
    norm_cast
  have hhalf' : 1 / 2 ≤ ((num % den : Nat) : ℚ) / den ↔ den ≤ 2 * (num % den) := by
    rw [div_le_div_iff₀ two_pos hden', one_mul, mul_comm _ (2 : ℚ)]
    norm_cast
  rw [hdiv]
  -- the natural number below is taken for at most a half above it, the next one for at least a half
  have hbelow (h : 2 * (num % den) ≤ den) :
      |((num / den : Nat) : ℚ) - ((num / den : Nat) + (num % den : Nat) / den)| ≤ 1 / 2 := by
    have := hhalf.2 h
    exact abs_sub_le_iff.2 ⟨by linarith, by linarith⟩
  have habove (h : den ≤ 2 * (num % den)) :
      |((num / den + 1 : Nat) : ℚ) - ((num / den : Nat) + (num % den : Nat) / den)| ≤ 1 / 2 := by
    have := hhalf'.2 h
    rw [Nat.cast_succ]
    exact abs_sub_le_iff.2 ⟨by linarith, by linarith⟩
  unfold roundDiv
  dsimp only
  split
  · exact hbelow (Nat.compare_eq_lt.1 ‹_›).le
  · exact habove (Nat.compare_eq_gt.1 ‹_›).le
  · rename_i heq
    rw [Nat.compare_eq_eq] at heq
    split
    · exact habove heq.ge
    · split
      · exact hbelow heq.le
      · exact habove heq.ge

/-- **A finite number with fixed places** shows the nearest number of units of the last place. -/
theorem exists_fixed_eq (h : x.toModel.unpack = .finite s m e hpos) (places : Nat) :
    ∃ units : Nat, |units - (m * 2 ^ e * 10 ^ places : ℚ)| ≤ 1 / 2 ∧
      fixed places x = Layout.signed (s == .negative) (withPoint places units) := by
  have hvalue : ((m * Nat.pow 2 e.toNat * Nat.pow 10 places : Nat) : ℚ) / Nat.pow 2 (-e).toNat =
      m * 2 ^ e * 10 ^ places := by
    have hsplit : e = (e.toNat : Int) - ((-e).toNat : Int) := by omega
    rw [Nat.pow_eq, Nat.pow_eq, Nat.pow_eq]
    conv_rhs => rw [hsplit]
    rw [zpow_sub₀ two_ne_zero, zpow_natCast, zpow_natCast]
    push_cast
    ring
  have hround := abs_roundDiv_sub_le (m * Nat.pow 2 e.toNat * Nat.pow 10 places)
    (Nat.pow 2 (-e).toNat) (Nat.pow_pos (by decide)) .toEven
  rw [hvalue] at hround
  refine ⟨_, hround, ?_⟩
  rw [fixed, h]

theorem fixed_of_zero (h : x.toModel.unpack = .zero s) (places : Nat) :
    fixed places x = Layout.signed (s == .negative) (withPoint places 0) := by
  rw [fixed, h]

/-- An infinity has no digits. -/
theorem fixed_of_infinity (h : x.toModel.unpack = .infinity s) (places : Nat) :
    fixed places x = if s == .negative then "-inf" else "inf" := by
  rw [fixed, h, Value.ofDouble, h]
  rfl

end Spreadsheet.Decimal
