import Mathlib.Data.List.Induction
import Spreadsheet.Cell.Key

/-! # Spellings of a position
A position has many keys: the letters after the first one do not count, and neither do the zeros in
front of the row number. The digits of a key from the first one that is not zero are the usual
numeral of its row, so a key is canonical exactly when it has one letter and no leading zero. A key
of two or more letters has the canonical key of its position as its alias; a key of one letter has
none, also where it differs from the canonical one by leading zeros. -/

namespace Spreadsheet

/-! ## Digits -/

namespace Decimal

variable {digits : List Char} {c : Char}

theorem toNat_of_isDigit (h : c.isDigit) : 48 ≤ c.toNat ∧ c.toNat ≤ 57 := by
  have hbounds : c.val ≥ 48 ∧ c.val ≤ 57 := by simpa [Char.isDigit] using h
  exact hbounds

theorem digitChar_of_isDigit (h : c.isDigit) : Nat.digitChar (c.toNat - '0'.toNat) = c := by
  obtain ⟨hlow, hhigh⟩ := toNat_of_isDigit h
  have hzero : '0'.toNat = 48 := rfl
  apply Char.toNat_inj.1
  rw [Nat.toNat_digitChar_of_lt_ten (by omega)]
  omega

theorem digit?_ten (h : c.isDigit) : digit? 10 c = some (c.toNat - '0'.toNat) := by
  obtain ⟨hlow, hhigh⟩ := toNat_of_isDigit h
  have hbounds : '0' ≤ c ∧ c ≤ '9' := ⟨hlow, hhigh⟩
  have hzero : '0'.toNat = 48 := rfl
  have hvalue : c.toNat - '0'.toNat < 10 := by omega
  simp only [digit?, hbounds, and_self, if_true, hvalue]

/-- Digits denote the number that they spell. -/
theorem natural?_ten (hne : digits ≠ []) (hdigits : ∀ c ∈ digits, c.isDigit) :
    natural? 10 digits = some (Nat.ofDigitChars 10 digits 0) := by
  have hfrom : ∀ start,
      natural?.from 10 start digits = some (Nat.ofDigitChars 10 digits start) := by
    clear hne
    induction digits with
    | nil => exact fun start => by rw [natural?.from, Nat.ofDigitChars_nil]
    | cons c rest ih =>
      intro start
      rw [natural?.from, digit?_ten (hdigits c List.mem_cons_self), Option.bind_some,
        ih fun c hc => hdigits c (List.mem_cons_of_mem _ hc), Nat.ofDigitChars_cons, Nat.mul_comm]
  cases digits with
  | nil => exact absurd rfl hne
  | cons c rest => exact hfrom 0

/-- Leading zeros do not count. -/
theorem ofDigitChars_dropWhile_zero (digits : List Char) :
    Nat.ofDigitChars 10 (digits.dropWhile (· = '0')) 0 = Nat.ofDigitChars 10 digits 0 := by
  induction digits with
  | nil => rfl
  | cons c rest ih =>
    by_cases hc : c = '0'
    · rw [List.dropWhile_cons_of_pos (by simpa using hc), ih, hc, Nat.ofDigitChars_cons]
      rfl
    · rw [List.dropWhile_cons_of_neg (by simpa using hc)]

theorem ofDigitChars_cons_pos (hdigit : c.isDigit) (hc : c ≠ '0') (digits : List Char) :
    0 < Nat.ofDigitChars 10 (c :: digits) 0 := by
  have hvalue : 0 < c.toNat - '0'.toNat := by
    have hne : c.toNat ≠ '0'.toNat := fun h => hc (Char.toNat_inj.1 h)
    have hzero : '0'.toNat = 48 := rfl
    have := (toNat_of_isDigit hdigit).1
    omega
  rw [Nat.ofDigitChars_cons, Nat.ofDigitChars_eq_ofDigitChars_zero, Nat.mul_zero, Nat.zero_add]
  exact Nat.add_pos_left (Nat.mul_pos (Nat.pow_pos (by decide)) hvalue) _

/-- **Digits without a leading zero are the numeral of the number that they spell.** -/
theorem toDigits_ofDigitChars (hc : c ≠ '0') (hdigits : ∀ digit ∈ c :: digits, digit.isDigit) :
    Nat.toDigits 10 (Nat.ofDigitChars 10 (c :: digits) 0) = c :: digits := by
  have hnumeral : ∀ {digit : Char}, digit.isDigit →
      Nat.toDigits 10 (digit.toNat - '0'.toNat) = [digit] := by
    intro digit hdigit
    have := toNat_of_isDigit hdigit
    have hzero : '0'.toNat = 48 := rfl
    rw [Nat.toDigits_of_lt_base (by omega), digitChar_of_isDigit hdigit]
  induction digits using List.reverseRecOn with
  | nil =>
    rw [Nat.ofDigitChars_cons, Nat.ofDigitChars_nil, Nat.mul_zero, Nat.zero_add]
    exact hnumeral (hdigits c List.mem_cons_self)
  | append_singleton digits last ih =>
    -- the last digit is taken off, and the number in front of it is positive
    have hlast : last.isDigit := hdigits last (by simp)
    have hfront : ∀ digit ∈ c :: digits, digit.isDigit :=
      fun digit hdigit => hdigits digit (List.mem_append_left [last] hdigit)
    have hpos := ofDigitChars_cons_pos (hfront c List.mem_cons_self) hc digits
    have hbound : last.toNat - '0'.toNat < 10 := by
      have := toNat_of_isDigit hlast
      have hzero : '0'.toNat = 48 := rfl
      omega
    rw [← List.cons_append, Nat.ofDigitChars_append, Nat.ofDigitChars_cons, Nat.ofDigitChars_nil,
      ← Nat.toDigits_append_toDigits (by decide) hpos hbound, ih hfront, hnumeral hlast]

/-- The significant digits of a number other than zero are its numeral. -/
theorem dropWhile_zero_of_ofDigitChars {n : Nat} (hdigits : ∀ c ∈ digits, c.isDigit)
    (hvalue : Nat.ofDigitChars 10 digits 0 = n) (hn : n ≠ 0) :
    ∃ c rest, c ≠ '0' ∧ digits.dropWhile (· = '0') = c :: rest ∧ Nat.toDigits 10 n = c :: rest := by
  rw [← ofDigitChars_dropWhile_zero] at hvalue
  cases hsignificant : digits.dropWhile (· = '0') with
  | nil =>
    rw [hsignificant, Nat.ofDigitChars_nil] at hvalue
    exact absurd hvalue.symm hn
  | cons c rest =>
    have hc : c ≠ '0' := by
      have := List.head?_dropWhile_not (fun c => decide (c = '0')) digits
      rw [hsignificant] at this
      simpa using this
    have hmem : ∀ digit ∈ c :: rest, digit.isDigit := fun digit hdigit =>
      hdigits digit ((List.dropWhile_sublist _).subset (hsignificant ▸ hdigit))
    rw [hsignificant] at hvalue
    exact ⟨c, rest, hc, rfl, by rw [← hvalue, toDigits_ofDigitChars hc hmem]⟩

end Decimal

/-! ## Keys -/

namespace Key

variable {key other : String} {letters digits : List Char} {first : Char} {p : Position}

theorem isLetter_iff {c : Char} : isLetter c = true ↔ 'A' ≤ c ∧ c ≤ 'Z' := by
  rw [isLetter, Bool.and_eq_true, decide_eq_true_eq, decide_eq_true_eq]

theorem not_isLetter_of_isDigit {c : Char} (h : c.isDigit) : ¬ isLetter c := by
  intro hletter
  have hlow : 65 ≤ c.toNat := (isLetter_iff.1 hletter).1
  exact absurd (Decimal.toNat_of_isDigit h).2 (by omega)

/-- The parts of a cell key are letters and digits that make it up. -/
theorem append_of_parts? {text : List Char} (h : parts? text = some (letters, digits)) :
    letters ++ digits = text ∧ letters ≠ [] ∧ digits ≠ [] ∧
      (∀ c ∈ letters, isLetter c) ∧ ∀ c ∈ digits, c.isDigit := by
  unfold parts? at h
  dsimp only at h
  split at h
  · exact nomatch h
  · rename_i hparts
    obtain ⟨rfl, rfl⟩ := Prod.mk.inj (Option.some.inj h)
    simp only [Bool.or_eq_true, not_or, List.isEmpty_iff, Bool.not_eq_true', Bool.not_eq_false,
      List.all_eq_true] at hparts
    obtain ⟨⟨hletters, hnumber⟩, hdigits⟩ := hparts
    exact ⟨List.takeWhile_append_dropWhile, hletters, hnumber,
      List.all_eq_true.1 List.all_takeWhile, hdigits⟩

/-- **The significant digits of a key are the numeral of its row**, which counts from one. -/
theorem dropWhile_zero_of_row? {row : Nat} (hne : digits ≠ [])
    (hdigits : ∀ c ∈ digits, c.isDigit) (h : row? digits = some row) :
    digits.dropWhile (· = '0') = Nat.toDigits 10 (row + 1) := by
  have hvalue : Nat.ofDigitChars 10 digits 0 = row + 1 := by
    unfold row? at h
    split at h
    · rename_i n hn
      obtain ⟨hnatural, -⟩ := Option.filter_eq_some_iff.1 hn
      rw [Decimal.natural?_ten hne hdigits] at hnatural
      rw [Option.some.inj hnatural, Option.some.inj h]
    · exact nomatch h
  obtain ⟨c, rest, -, hsignificant, hnumeral⟩ :=
    Decimal.dropWhile_zero_of_ofDigitChars hdigits hvalue (Nat.succ_ne_zero row)
  rw [hsignificant, hnumeral]

/-- A key with a position has parts: its first letter is the column and its digits are the row. -/
theorem exists_parts?_of_position? (h : position? key = some p) :
    ∃ first more digits, parts? key.toList = some (first :: more, digits) ∧
      row? digits = some p.row ∧ first.toNat = p.column + 'A'.toNat ∧ p.column < 26 := by
  unfold position? at h
  split at h
  · rename_i first more digits hparts
    obtain ⟨row, hrow, rfl⟩ := Option.map_eq_some_iff.1 h
    have hletter : isLetter first := (append_of_parts? hparts).2.2.2.1 first List.mem_cons_self
    have hlow : 'A'.toNat ≤ first.toNat := (isLetter_iff.1 hletter).1
    have hhigh : first.toNat ≤ 'Z'.toNat := (isLetter_iff.1 hletter).2
    have hcolumns : 'Z'.toNat = 'A'.toNat + 25 := rfl
    refine ⟨first, more, digits, hparts, hrow, (Nat.sub_add_cancel hlow).symm, ?_⟩
    change first.toNat - 'A'.toNat < 26
    omega
  · exact nomatch h

/-- Every position of a key has a canonical key. -/
theorem exists_ofPosition?_of_position? (h : position? key = some p) :
    ∃ canonical, ofPosition? p = some canonical := by
  obtain ⟨-, -, -, -, -, -, hcolumn⟩ := exists_parts?_of_position? h
  exact ⟨_, if_pos hcolumn⟩

/-- The key has one letter. -/
def HasOneLetter (key : String) : Prop :=
  ∃ letter digits, parts? key.toList = some ([letter], digits)

/-- The digits of the key start with a zero. -/
def HasLeadingZero (key : String) : Prop :=
  ∃ letters digits, parts? key.toList = some (letters, '0' :: digits)

/-- The keys have the same letters, and their digits differ at most by leading zeros. -/
def SameButZeros (key other : String) : Prop :=
  ∃ letters digits otherDigits, parts? key.toList = some (letters, digits) ∧
    parts? other.toList = some (letters, otherDigits) ∧
    digits.dropWhile (· = '0') = otherDigits.dropWhile (· = '0')

/-- A key of two or more letters has the canonical key of its position as its alias. -/
theorem alias?_eq_ofPosition? (hposition : position? key = some p) (h : ¬ HasOneLetter key) :
    alias? key = ofPosition? p := by
  obtain ⟨first, more, digits, hparts, -⟩ := exists_parts?_of_position? hposition
  cases more with
  | nil => exact absurd ⟨first, digits, hparts⟩ h
  | cons second rest => rw [alias?, hparts, hposition, Option.bind_some]

/-- A key of one letter has no alias. -/
theorem alias?_of_hasOneLetter (h : HasOneLetter key) : alias? key = none := by
  obtain ⟨letter, digits, hparts⟩ := h
  rw [alias?, hparts]

/-- **A key is the canonical one of its position** exactly when it has one letter and no leading
zero. -/
theorem ofPosition?_eq_self_iff (hposition : position? key = some p) :
    ofPosition? p = some key ↔ HasOneLetter key ∧ ¬ HasLeadingZero key := by
  obtain ⟨first, more, digits, hparts, hrow, hfirst, hcolumn⟩ :=
    exists_parts?_of_position? hposition
  obtain ⟨happend, -, hne, hletters, hdigits⟩ := append_of_parts? hparts
  have hsignificant := dropWhile_zero_of_row? hne hdigits hrow
  have hspelled : ofPosition? p = some key ↔ Nat.toDigits 10 (p.row + 1) = more ++ digits := by
    rw [ofPosition?, if_pos hcolumn, Nat.add_comm, ← hfirst, Char.ofNat_toNat, Nat.toList_repr,
      Option.some.injEq, ← String.toList_inj, String.toList_ofList, ← happend, List.cons_append,
      List.cons.injEq, and_iff_right rfl]
  rw [hspelled]
  constructor
  · intro hnumeral
    -- the canonical key has digits only after its first letter
    cases more with
    | cons second rest =>
      have hletter : isLetter second := hletters second (by simp)
      have hmem : second ∈ Nat.toDigits 10 (p.row + 1) := by
        rw [hnumeral]
        exact List.mem_cons_self
      have hdigit : second.isDigit := Nat.isDigit_of_mem_toDigits (by decide) (by decide) hmem
      exact absurd hletter (not_isLetter_of_isDigit hdigit)
    | nil =>
      refine ⟨⟨first, digits, hparts⟩, ?_⟩
      rintro ⟨letters, rest, hzero⟩
      obtain rfl := (Prod.mk.inj (Option.some.inj (hparts.symm.trans hzero))).2
      rw [hnumeral, List.nil_append, List.dropWhile_cons_of_pos rfl] at hsignificant
      have hlength := (List.dropWhile_sublist (l := rest) fun c => decide (c = '0')).length_le
      rw [hsignificant, List.length_cons] at hlength
      exact absurd hlength (Nat.not_succ_le_self _)
  · rintro ⟨⟨letter, rest, hone⟩, hzero⟩
    obtain ⟨-, rfl⟩ := List.cons.inj (Prod.mk.inj (Option.some.inj (hparts.symm.trans hone))).1
    rw [← hsignificant, List.nil_append]
    cases digits with
    | nil => exact absurd rfl hne
    | cons c rest =>
      refine List.dropWhile_cons_of_neg fun hc => hzero ⟨[first], rest, ?_⟩
      rw [hparts, of_decide_eq_true hc]

/-- Letters and then digits are the parts of the key that they make up. -/
theorem parts?_append (hletters : letters ≠ []) (hne : digits ≠ [])
    (hletter : ∀ c ∈ letters, isLetter c) (hdigit : ∀ c ∈ digits, c.isDigit) :
    parts? (letters ++ digits) = some (letters, digits) := by
  cases digits with
  | nil => exact absurd rfl hne
  | cons digit rest =>
    have hfirst : ¬ isLetter digit := not_isLetter_of_isDigit (hdigit digit List.mem_cons_self)
    have hall : (digit :: rest).all Char.isDigit := List.all_eq_true.2 hdigit
    have hsome : letters.isEmpty = false := List.isEmpty_eq_false_iff.2 hletters
    rw [parts?, List.takeWhile_append_of_pos hletter, List.dropWhile_append_of_pos hletter,
      List.takeWhile_cons_of_neg hfirst, List.dropWhile_cons_of_neg hfirst, List.append_nil, hsome,
      hall]
    rfl

/-- The number of a row is in the range of words. -/
theorem lt_of_row? {row : Nat} (h : row? digits = some row) : row + 1 < wordBound := by
  unfold row? at h
  split at h
  · rename_i n hn
    obtain rfl := Option.some.inj h
    exact of_decide_eq_true (Option.filter_eq_some_iff.1 hn).2
  · exact nomatch h

/-- The numeral of the number of a row denotes the row. -/
theorem row?_toDigits {row : Nat} (h : row + 1 < wordBound) :
    row? (Nat.toDigits 10 (row + 1)) = some row := by
  have hword : Decimal.word? 10 (Nat.toDigits 10 (row + 1)) = some (row + 1) := by
    rw [Decimal.word?, Decimal.natural?_ten Nat.toDigits_ne_nil fun c =>
      Nat.isDigit_of_mem_toDigits (by decide) (by decide),
      Nat.ofDigitChars_toDigits (by decide) (by decide)]
    exact if_pos (decide_eq_true h)
  rw [row?, hword]

/-- **The canonical key of a position has this position.** -/
theorem position?_of_ofPosition? (hrow : p.row + 1 < wordBound) (h : ofPosition? p = some key) :
    position? key = some p := by
  have hcolumns : ∀ c < 26, isLetter (Char.ofNat ('A'.toNat + c)) ∧
      (Char.ofNat ('A'.toNat + c)).toNat - 'A'.toNat = c := by decide
  unfold ofPosition? at h
  split at h
  · rename_i hcolumn
    obtain rfl := Option.some.inj h
    obtain ⟨hletter, hcode⟩ := hcolumns p.column hcolumn
    have hparts : parts? ([Char.ofNat ('A'.toNat + p.column)] ++ Nat.toDigits 10 (p.row + 1)) =
        some ([Char.ofNat ('A'.toNat + p.column)], Nat.toDigits 10 (p.row + 1)) :=
      parts?_append (List.cons_ne_nil _ []) Nat.toDigits_ne_nil
        (List.forall_mem_singleton.2 hletter)
        fun c => Nat.isDigit_of_mem_toDigits (by decide) (by decide)
    rw [List.singleton_append] at hparts
    rw [position?, String.toList_ofList, Nat.toList_repr, hparts]
    dsimp only
    rw [row?_toDigits hrow, Option.map_some, hcode]
  · exact nomatch h

/-- Keys of one letter with the same position differ at most by leading zeros. -/
theorem sameButZeros_of_position? (hkey : position? key = some p)
    (hother : position? other = some p) (hone : HasOneLetter key) (hotherOne : HasOneLetter other) :
    SameButZeros key other := by
  obtain ⟨first, more, digits, hparts, hrow, hfirst, -⟩ := exists_parts?_of_position? hkey
  obtain ⟨first', more', digits', hparts', hrow', hfirst', -⟩ := exists_parts?_of_position? hother
  obtain ⟨_, _, hletter⟩ := hone
  obtain ⟨_, _, hletter'⟩ := hotherOne
  obtain ⟨-, rfl⟩ := List.cons.inj (Prod.mk.inj (Option.some.inj (hparts.symm.trans hletter))).1
  obtain ⟨-, rfl⟩ := List.cons.inj (Prod.mk.inj (Option.some.inj (hparts'.symm.trans hletter'))).1
  obtain rfl : first = first' := Char.toNat_inj.1 (hfirst.trans hfirst'.symm)
  obtain ⟨-, -, hne, -, hdigits⟩ := append_of_parts? hparts
  obtain ⟨-, -, hne', -, hdigits'⟩ := append_of_parts? hparts'
  refine ⟨[first], digits, digits', hparts, hparts', ?_⟩
  rw [dropWhile_zero_of_row? hne hdigits hrow, dropWhile_zero_of_row? hne' hdigits' hrow']

end Key

end Spreadsheet
