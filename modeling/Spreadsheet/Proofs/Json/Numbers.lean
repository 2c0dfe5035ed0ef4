import Spreadsheet.Proofs.Decimal.Scaling

/-! # The text of a double is read
A finite double is written with a point or a power of ten or both, in digits that fit a word, so the
reader takes all of them for its significand and gives a double, and it stops where the text does.
The double is the same for every text behind that **ends** the number. -/

namespace Spreadsheet.Json

open Decimal Float.Model UnpackedFloat

/-- A text **ends** a value in front of it: it is empty or starts with a comma or a closing
bracket. -/
def Ends (rest : List Char) : Prop :=
  rest = [] ∨ ∃ c more, rest = c :: more ∧ (c = ',' ∨ c = ']' ∨ c = '}')

variable {negative : Bool} {rest rest' whole fraction after text : List Char} {n s : Nat}
  {x : Float} {d : Scaled}

/-- What ends a value does not go on with it. -/
theorem Ends.eq_nil_or (h : Ends rest) :
    rest = [] ∨ ∃ c more, rest = c :: more ∧ ¬ c.isDigit ∧ c ≠ '.' ∧ ¬ (c = 'e' ∨ c = 'E') := by
  rcases h with rfl | ⟨c, more, rfl, rfl | rfl | rfl⟩
  · exact .inl rfl
  all_goals exact .inr ⟨_, more, rfl, by decide, by decide, by decide⟩

/-! ## Parts of a number -/

theorem le_ofDigitChars (digits : List Char) (s : Nat) : s ≤ Nat.ofDigitChars 10 digits s := by
  induction digits generalizing s with
  | nil => exact Nat.le_refl s
  | cons c digits ih =>
    rw [Nat.ofDigitChars_cons]
    exact (by omega : s ≤ 10 * s + (c.toNat - '0'.toNat)).trans (ih _)

/-- Digits that make up a word are all taken. -/
theorem accumulate_eq {digits : List Char} (h : Nat.ofDigitChars 10 digits s < Nat.pow 2 64) :
    accumulate s digits = (Nat.ofDigitChars 10 digits s, []) := by
  induction digits generalizing s with
  | nil => rfl
  | cons c digits ih =>
    rw [Nat.ofDigitChars_cons, Nat.mul_comm] at h ⊢
    rw [accumulate, if_pos ((le_ofDigitChars digits _).trans_lt h)]
    exact ih h

/-- The digits after a point are the fraction. -/
theorem readFraction_point (hne : fraction ≠ []) (hdigits : ∀ c ∈ fraction, c.isDigit)
    (hafter : after = [] ∨ ∃ c more, after = c :: more ∧ ¬ c.isDigit) :
    readFraction ('.' :: (fraction ++ after)) = some (some fraction, after) := by
  obtain ⟨htake, hdrop⟩ := takeWhile_append hdigits hafter
  rw [readFraction, htake, hdrop, if_neg (by rwa [List.isEmpty_iff])]

theorem readFraction_of_no_point (h : ∀ more, after ≠ '.' :: more) :
    readFraction after = some (none, after) := by
  unfold readFraction
  split
  · exact absurd rfl (h _)
  · rfl

/-- Nothing that ends a value is a power. -/
theorem readExponent_of_ends (h : Ends rest) : readExponent rest = some (none, rest) := by
  rcases h.eq_nil_or with rfl | ⟨c, more, rfl, -, -, hmark⟩
  · rfl
  · rw [readExponent.eq_def]
    exact if_neg hmark

/-- The power of ten of a decimal, as it is written. -/
def powerText : Int → List Char
  | .ofNat e => '+' :: digits e
  | .negSucc k => '-' :: digits (k + 1)

/-- A written power is read. -/
theorem readExponent_powerText (E : Int) (h : Ends rest) :
    readExponent ('e' :: (powerText E ++ rest)) = some (some E, rest) := by
  have hdigits : ∀ n, natural? 10 ((digits n ++ rest).takeWhile Char.isDigit) = some n ∧
      (digits n ++ rest).dropWhile Char.isDigit = rest := by
    intro n
    obtain ⟨htake, hdrop⟩ := takeWhile_append (p := Char.isDigit)
      (fun c (hc : c ∈ digits n) => isDigit_of_mem_digits hc)
      (h.eq_nil_or.imp_right fun ⟨c, more, hrest, hc, _⟩ => ⟨c, more, hrest, hc⟩)
    rw [htake, hdrop]
    exact ⟨natural?_eq_some_iff.2 (denotes_zeros_append_digits 0 n), rfl⟩
  cases E with
  | ofNat e => simp [powerText, readExponent, hdigits e]
  | negSucc k => simp [powerText, readExponent, hdigits (k + 1), Int.negSucc_eq]

/-! ## Numbers with a point or a power -/

/-- **A number with a point or a power** whose digits make up a word is these digits, scaled by the
power less the number of digits after the point. There is no superfluous zero in front. -/
theorem readUnsigned_eq {fraction : Option (List Char)} {power : Option Int}
    (hne : whole ≠ []) (hwhole : ∀ c ∈ whole, c.isDigit)
    (hzero : ∀ c more, whole ≠ '0' :: c :: more)
    (hafter : after = [] ∨ ∃ c more, after = c :: more ∧ ¬ c.isDigit)
    (hfraction : readFraction after = some (fraction, rest))
    (hpower : readExponent rest = some (power, rest'))
    (hsome : fraction.isSome ∨ power.isSome)
    (hdigits : Nat.ofDigitChars 10 (whole ++ fraction.getD []) 0 = s) (hs : s < Nat.pow 2 64)
    (hscale : scale? s (power.getD 0 - (fraction.getD []).length) = some x) :
    readUnsigned negative (whole ++ after) =
      some (.double (if negative then -x else x), rest') := by
  obtain ⟨htake, hdrop⟩ := takeWhile_append hwhole hafter
  rw [Nat.ofDigitChars_append] at hdigits
  have hfront : accumulate 0 whole = (Nat.ofDigitChars 10 whole 0, []) :=
    accumulate_eq ((le_ofDigitChars _ _).trans_lt (hdigits ▸ hs))
  have hback : accumulate (Nat.ofDigitChars 10 whole 0) (fraction.getD []) = (s, []) :=
    hdigits ▸ accumulate_eq (hdigits ▸ hs)
  have hmany : ¬ (([] : List Char).isEmpty ∧ fraction.isNone ∧ power.isNone) := by
    rintro ⟨-, hnone, hnone'⟩
    rw [Option.isNone_iff_eq_none] at hnone hnone'
    simp [hnone, hnone'] at hsome
  have hexponent : (([] : List Char).length - ((fraction.getD []).length - ([] : List Char).length :
      Nat) + power.getD 0 : Int) = power.getD 0 - (fraction.getD []).length := by
    rw [List.length_nil, Nat.sub_zero]
    omega
  -- the digits are not none and have no superfluous zero, so the last case applies
  unfold readUnsigned
  simp only [htake, hdrop, hfront, hfraction, hpower, hback, if_neg hmany, Option.bind_eq_bind,
    Option.bind_some, hexponent, hscale]
  rfl

/-- The text is **read as a double**, also after a minus sign, up to whatever ends it. -/
def IsRead (text : List Char) : Prop :=
  ∃ x, ∀ negative rest, Ends rest →
    readUnsigned negative (text ++ rest) = some (.double (if negative then -x else x), rest)

/-- Such a text starts with a digit. -/
theorem IsRead.exists_eq_cons (h : IsRead text) : ∃ c more, text = c :: more ∧ c.isDigit := by
  obtain ⟨x, hx⟩ := h
  have hread := hx false [] (.inl rfl)
  rw [List.append_nil] at hread
  by_contra hnone
  have hwhole : text.takeWhile Char.isDigit = [] := by
    cases text with
    | nil => rfl
    | cons c more => exact List.takeWhile_cons_of_neg fun hc => hnone ⟨c, more, rfl, hc⟩
  unfold readUnsigned at hread
  simp only [hwhole] at hread
  exact nomatch hread

/-- Digits with a point are read. -/
theorem isRead_pointed (hne : whole ≠ []) (hzero : ∀ c more, whole ≠ '0' :: c :: more)
    (hfraction : fraction ≠ []) (hdigits : ∀ c ∈ whole ++ fraction, c.isDigit)
    (hlt : Nat.ofDigitChars 10 (whole ++ fraction) 0 < Nat.pow 2 64) :
    IsRead (whole ++ '.' :: fraction) := by
  obtain ⟨x, hx⟩ : ∃ x, scale? (Nat.ofDigitChars 10 (whole ++ fraction) 0)
      (0 - (fraction.length : Nat)) = some x := by
    obtain ⟨k, hk⟩ := Nat.exists_eq_succ_of_ne_zero (mt List.length_eq_zero_iff.1 hfraction)
    rw [hk, show (0 - (k + 1 : Nat) : Int) = .negSucc k by omega]
    exact ⟨_, rfl⟩
  refine ⟨x, fun negative rest hrest => ?_⟩
  rw [List.append_assoc, List.cons_append]
  have hafter : rest = [] ∨ ∃ c more, rest = c :: more ∧ ¬ c.isDigit :=
    hrest.eq_nil_or.imp_right fun ⟨c, more, h, hc, _⟩ => ⟨c, more, h, hc⟩
  exact readUnsigned_eq hne (fun c hc => hdigits c (List.mem_append_left _ hc)) hzero
    (.inr ⟨'.', _, rfl, by decide⟩)
    (readFraction_point hfraction (fun c hc => hdigits c (List.mem_append_right _ hc)) hafter)
    (readExponent_of_ends hrest) (.inl rfl) rfl hlt hx

theorem ofDigitChars_of_denotes (h : Denotes 10 text n) : Nat.ofDigitChars 10 text 0 = n :=
  Option.some.inj ((natural?_ten h.ne_nil fun _ => h.isDigit_of_mem).symm.trans
    (natural?_eq_some_iff.2 h))

/-- A decimal whose digits make up a word is read if it is written without a power of ten. -/
theorem isRead_positional (hpos : 0 < d.coefficient) (hlt : d.coefficient < Nat.pow 2 64)
    (hexponent : d.scientificExponent ≤ 15) : IsRead (d.positional true) := by
  obtain ⟨first, others, hfirst, hzero⟩ := exists_digits_eq_cons hpos
  rcases positional_pointZero_cases d with ⟨zeros, hzeros, htext⟩ | ⟨hneg, htext⟩
  · rw [htext]
    -- one more zero counts as a digit, and then there are at most 17
    have hn := denotes_digits_append_zeros d.coefficient (zeros + 1)
    rw [List.replicate_succ', ← List.append_assoc] at hn
    refine isRead_pointed (List.append_ne_nil_of_left_ne_nil (digits_ne_nil _) _) ?_
      (List.cons_ne_nil _ _) (fun _ => hn.isDigit_of_mem) ?_
    · intro c more h
      rw [hfirst, List.cons_append] at h
      exact hzero (List.cons.inj h).1
    · rw [ofDigitChars_of_denotes hn]
      have hten : (d.coefficient * 10 ^ zeros : ℚ) < 10 ^ (16 : Nat) := by
        have hlarge := (scientificExponent_bounds hpos).2
        rw [hzeros, zpow_natCast] at hlarge
        refine hlarge.trans_le ?_
        rw [← zpow_natCast]
        exact zpow_le_zpow_right₀ (by norm_num) (by omega)
      have hnat : d.coefficient * 10 ^ zeros < 10 ^ 16 := by exact_mod_cast hten
      rw [Nat.pow_succ, ← Nat.mul_assoc]
      change _ < 2 ^ 64
      omega
  · rcases positional_cases d with ⟨zeros, hzeros, -⟩ | ⟨whole, fraction, hwhole, hne, -, hsame, hn⟩
    · omega
    · rw [htext, hsame]
      refine isRead_pointed ?_ ?_ hne (fun _ => hn.isDigit_of_mem)
        ((ofDigitChars_of_denotes hn).symm ▸ hlt)
      · rcases hwhole with rfl | ⟨hwhole, -⟩
        · exact List.cons_ne_nil _ _
        · exact hwhole
      · rintro c more rfl
        rcases hwhole with h | ⟨-, more', h⟩
        · exact nomatch h
        · rw [hfirst] at h
          exact hzero (List.cons.inj h).1.symm

theorem scientific_eq (d : Scaled) : d.scientific true =
    (match digits d.coefficient with
      | first :: second :: rest => first :: '.' :: second :: rest
      | short => short) ++ 'e' :: powerText d.scientificExponent := by
  unfold Scaled.scientific
  cases d.scientificExponent <;> rfl

/-- A decimal whose digits make up a word and that is not refused is read if it is written with a
power of ten. -/
theorem isRead_scientific (hpos : 0 < d.coefficient) (hlt : d.coefficient < Nat.pow 2 64)
    (hscale : ∃ x, scale? d.coefficient d.exponent = some x) : IsRead (d.scientific true) := by
  obtain ⟨x, hx⟩ := hscale
  obtain ⟨first, others, hfirst, hzero⟩ := exists_digits_eq_cons hpos
  have hvalue : Nat.ofDigitChars 10 ([first] ++ others) 0 = d.coefficient := by
    rw [List.singleton_append, ← hfirst, ofDigitChars_digits]
  have hmem : ∀ c ∈ first :: others, c.isDigit := fun c hc => isDigit_of_mem_digits (hfirst ▸ hc)
  have hwhole : ∀ c ∈ [first], c.isDigit := fun c hc =>
    hmem c (List.mem_singleton.1 hc ▸ List.mem_cons_self)
  have hexponent : d.scientificExponent - (others.length : Nat) = d.exponent := by
    rw [Scaled.scientificExponent, hfirst, List.length_cons, Nat.add_sub_cancel]
    omega
  refine ⟨x, fun negative rest hrest => ?_⟩
  cases others with
  | nil =>
    -- a single digit is not followed by a point
    have htext : d.scientific true ++ rest =
        [first] ++ 'e' :: (powerText d.scientificExponent ++ rest) := by
      rw [scientific_eq, hfirst]
      rfl
    rw [htext]
    exact readUnsigned_eq (List.cons_ne_nil _ _) hwhole (by simp)
      (.inr ⟨'e', _, rfl, by decide⟩) (readFraction_of_no_point (by simp))
      (readExponent_powerText _ hrest) (.inr rfl) hvalue hlt (hexponent.symm ▸ hx)
  | cons second others =>
    have htext : d.scientific true ++ rest =
        [first] ++ '.' :: (second :: others ++
          'e' :: (powerText d.scientificExponent ++ rest)) := by
      rw [scientific_eq, hfirst]
      simp
    rw [htext]
    exact readUnsigned_eq (List.cons_ne_nil _ _) hwhole (by simp)
      (.inr ⟨'.', _, rfl, by decide⟩)
      (readFraction_point (List.cons_ne_nil _ _) (fun c hc => hmem c (List.mem_cons_of_mem _ hc))
        (.inr ⟨'e', _, rfl, by decide⟩))
      (readExponent_powerText _ hrest) (.inl rfl) hvalue hlt (hexponent.symm ▸ hx)

/-! ## Doubles -/

/-- A decimal that is not refused and whose digits make up a word is read. -/
theorem isRead_ofDecimal (hpos : 0 < d.coefficient) (hlt : d.coefficient < Nat.pow 2 64)
    (hscale : ∃ x, scale? d.coefficient d.exponent = some x) : IsRead (jsonDouble.ofDecimal d) := by
  unfold Layout.ofDecimal
  split
  · rename_i hpositional
    rw [jsonDouble, Bool.and_eq_true, decide_eq_true_eq, decide_eq_true_eq] at hpositional
    exact isRead_positional hpos hlt hpositional.2
  · exact isRead_scientific hpos hlt hscale

/-- The text of a finite double is one that is read, with a sign in front if it is negative. -/
theorem exists_text_eq (h : x.isFinite) : ∃ negative text,
    jsonDouble.render (.ofDouble x) = Layout.signed negative text ∧ IsRead text := by
  rcases isFinite_iff.1 h with ⟨sign, h⟩ | ⟨sign, m, e, hpos, h⟩
  · refine ⟨sign == .negative, ['0'] ++ '.' :: ['0'], ?_, ?_⟩
    · rw [Value.ofDouble, h]
      rfl
    · exact isRead_pointed (List.cons_ne_nil '0' []) (by simp) (List.cons_ne_nil '0' []) (by simp)
        (by decide +kernel)
  · obtain ⟨hm, he⟩ := canonical_of_unpack h
    have hrounds := Interval.roundsTo_shortest (m := m) (e := e) decide_eq_true_iff hpos .toEven
    exact ⟨_, _, render_of_unpack rfl h, isRead_ofDecimal (hrounds.coefficient_pos hm)
      (Interval.coefficient_shortest_lt hpos hm.lt .toEven)
      (exists_scale?_shortest hm he decide_eq_true_iff)⟩

/-- **The text of a finite double is read as a double**, up to whatever ends it. It starts with a
digit or a sign. -/
theorem exists_readNumber (h : x.isFinite) :
    (∃ y, ∀ rest, Ends rest →
      readNumber ((jsonDouble.render (.ofDouble x)).toList ++ rest) = some (.double y, rest)) ∧
    ∃ c more, (jsonDouble.render (.ofDouble x)).toList = c :: more ∧ (c.isDigit ∨ c = '-') := by
  obtain ⟨negative, text, htext, hread⟩ := exists_text_eq h
  rw [htext, Layout.signed, String.toList_ofList]
  obtain ⟨c, more, rfl, hc⟩ := hread.exists_eq_cons
  obtain ⟨y, hy⟩ := hread
  cases negative with
  | true => exact ⟨⟨-y, fun rest => hy true rest⟩, '-', _, rfl, .inr rfl⟩
  | false =>
    refine ⟨⟨y, fun rest hrest => ?_⟩, c, more, rfl, .inl hc⟩
    have hunsigned := hy false rest hrest
    rw [if_neg Bool.false_ne_true] at hunsigned ⊢
    rw [← hunsigned]
    unfold readNumber
    split
    · rename_i heq
      rw [(List.cons.inj heq).1] at hc
      exact absurd hc (by decide)
    · rfl

end Spreadsheet.Json
