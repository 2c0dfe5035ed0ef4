import Mathlib.Data.List.Induction
import Spreadsheet.Proofs.Cell.Spelling

/-! # The grammar of numerals
Which texts the readers of numerals accept, and as which numbers. A **radix numeral** is a digit of
the radix, or a radix numeral followed by a digit. An **unsigned numeral** is a mantissa and a
power: the mantissa is a radix numeral of radix ten that may have a point anywhere, also in front of
its first digit or after its last one, and the **power** is nothing or a letter `e` or `E` and a
radix numeral of radix ten, in a text without signs. -/

namespace Spreadsheet.Decimal

/-! ## Digits of a radix -/

/-- The text is one or more digits of a radix, and the number that they denote. -/
inductive Denotes (radix : Nat) : List Char → Nat → Prop
  /-- One digit. -/
  | digit {c : Char} {d : Nat} : digit? radix c = some d → Denotes radix [c] d
  /-- Digits and one more. -/
  | concat {text : List Char} {n : Nat} {c : Char} {d : Nat} :
    Denotes radix text n → digit? radix c = some d → Denotes radix (text ++ [c]) (n * radix + d)

/-- The number of an unsigned power of ten: absent, or a letter and digits. -/
inductive Power : List Char → Nat → Prop
  /-- No power. -/
  | absent : Power [] 0
  /-- The letter and the digits after it. -/
  | mark {c : Char} {text : List Char} {n : Nat} :
    c = 'e' ∨ c = 'E' → Denotes 10 text n → Power (c :: text) n

/-- The text is an unsigned decimal numeral, and the double nearest to the number that it
denotes. -/
inductive Unsigned : List Char → Float → Prop
  /-- Digits without a point. -/
  | whole {digits power : List Char} {n e : Nat} :
    Denotes 10 digits n → Power power e → Unsigned (digits ++ power) (toDouble n e)
  /-- Digits with a point, of which those after it count the power down. -/
  | pointed {digits fraction power : List Char} {n e : Nat} :
    Denotes 10 (digits ++ fraction) n → Power power e →
      Unsigned (digits ++ '.' :: (fraction ++ power)) (toDouble n (e - fraction.length))

variable {radix n e : Nat} {text digits fraction power : List Char} {c : Char} {x : Float}

theorem Denotes.ne_nil (h : Denotes radix text n) : text ≠ [] := by
  cases h with
  | digit => exact List.cons_ne_nil _ _
  | concat => exact List.append_ne_nil_of_right_ne_nil _ (List.cons_ne_nil _ _)

/-- Each character of a radix numeral is a digit of the radix. -/
theorem Denotes.isSome_of_mem (h : Denotes radix text n) (hc : c ∈ text) :
    (digit? radix c).isSome := by
  induction h with
  | digit hd =>
    rw [List.mem_singleton.1 hc, hd]
    rfl
  | concat _ hd ih =>
    rcases List.mem_append.1 hc with hc | hc
    · exact ih hc
    · rw [List.mem_singleton.1 hc, hd]
      rfl

/-- The last digit is read last. -/
theorem from_concat (start : Nat) (text : List Char) (c : Char) :
    natural?.from radix start (text ++ [c]) =
      (natural?.from radix start text).bind fun n => (digit? radix c).map (n * radix + ·) := by
  induction text generalizing start with
  | nil =>
    rw [List.nil_append, natural?.from, natural?.from, Option.bind_some]
    cases digit? radix c <;> rfl
  | cons d rest ih =>
    rw [List.cons_append, natural?.from, natural?.from]
    cases digit? radix d with
    | none => rfl
    | some value => exact ih _

theorem natural?_of_ne_nil (h : text ≠ []) : natural? radix text = natural?.from radix 0 text := by
  cases text with
  | nil => exact absurd rfl h
  | cons => rfl

/-- **The reader of radix numerals** accepts exactly these, as the numbers that they denote. -/
theorem natural?_eq_some_iff : natural? radix text = some n ↔ Denotes radix text n := by
  constructor
  · intro h
    induction text using List.reverseRecOn generalizing n with
    | nil => exact nomatch h
    | append_singleton text c ih =>
      rw [natural?_of_ne_nil (List.append_ne_nil_of_right_ne_nil _ (List.cons_ne_nil _ _)),
        from_concat] at h
      obtain ⟨front, hfront, h⟩ := Option.bind_eq_some_iff.1 h
      obtain ⟨d, hd, rfl⟩ := Option.map_eq_some_iff.1 h
      cases text with
      | nil =>
        obtain rfl : 0 = front := Option.some.inj hfront
        rw [Nat.zero_mul, Nat.zero_add]
        exact .digit hd
      | cons => exact .concat (ih hfront) hd
  · intro h
    induction h with
    | digit hd =>
      rw [natural?_of_ne_nil (List.cons_ne_nil _ _), natural?.from, hd, Option.bind_some,
        natural?.from, Nat.zero_mul, Nat.zero_add]
    | concat hfront hd ih =>
      rw [natural?_of_ne_nil hfront.ne_nil] at ih
      rw [natural?_of_ne_nil (List.append_ne_nil_of_right_ne_nil _ (List.cons_ne_nil _ _)),
        from_concat, ih, Option.bind_some, hd, Option.map_some]

/-- The reader of words accepts the radix numerals of numbers below `2 ^ 64`. -/
theorem word?_eq_some_iff : word? radix text = some n ↔ Denotes radix text n ∧ n < Nat.pow 2 64 :=
  Option.filter_eq_some_iff.trans (and_congr natural?_eq_some_iff decide_eq_true_iff)

/-! ## Decimal numerals -/

theorem isDigit_iff : c.isDigit ↔ (digit? 10 c).isSome := by
  constructor
  · intro h
    rw [digit?_ten h]
    rfl
  · intro h
    by_contra hc
    have hrange : ¬ ('0' ≤ c ∧ c ≤ '9') := by
      rintro ⟨hlow, hhigh⟩
      have hlow' : c.val ≥ 48 := hlow
      have hhigh' : c.val ≤ 57 := hhigh
      exact hc (by simp [Char.isDigit, hlow', hhigh'])
    -- a letter stands for ten or more, and every other character for the radix itself
    have hvalue : digit? 10 c = none := by
      unfold digit?
      rw [if_neg hrange]
      refine if_neg (Nat.not_lt.2 ?_)
      split
      · exact Nat.le_add_left 10 _
      · split
        · exact Nat.le_add_left 10 _
        · exact Nat.le_refl 10
    rw [hvalue] at h
    exact nomatch h

/-- A decimal numeral is made of digits. -/
theorem Denotes.isDigit_of_mem (h : Denotes 10 text n) (hc : c ∈ text) : c.isDigit :=
  isDigit_iff.2 (h.isSome_of_mem hc)

/-- A power is nothing, or it does not start with a digit or a point. -/
theorem Power.eq_nil_or (h : Power power e) :
    power = [] ∨ ∃ c rest, power = c :: rest ∧ ¬ c.isDigit ∧ c ≠ '.' := by
  cases h with
  | absent => exact .inl rfl
  | mark hc => exact .inr ⟨_, _, rfl, by rcases hc with rfl | rfl <;> decide⟩

/-- The power is read as the number that it denotes. -/
theorem Power.exponent? (h : Power power e) : exponent? power = some (e : Int) := by
  cases h with
  | absent => rfl
  | @mark c text n hc hdigits =>
    have hnatural := natural?_eq_some_iff.2 hdigits
    have hhead : ∀ d rest, text = d :: rest → d.isDigit := by
      rintro d rest rfl
      exact hdigits.isDigit_of_mem List.mem_cons_self
    rw [Decimal.exponent?.eq_def]
    simp only [if_pos hc]
    split
    · exact absurd (hhead _ _ rfl) (by decide)
    · exact absurd (hhead _ _ rfl) (by decide)
    · rw [hnatural]
      rfl

/-- In a text without signs, what is read as a power is one. -/
theorem power_of_exponent? {i : Int} (hplus : '+' ∉ power) (hminus : '-' ∉ power)
    (h : exponent? power = some i) : ∃ e : Nat, i = e ∧ Power power e := by
  unfold exponent? at h
  split at h
  · exact ⟨0, (Option.some.inj h).symm, .absent⟩
  · split at h
    · rename_i c rest hc
      split at h
      · exact absurd (List.mem_cons_of_mem _ List.mem_cons_self) hplus
      · exact absurd (List.mem_cons_of_mem _ List.mem_cons_self) hminus
      · obtain ⟨e, he, rfl⟩ := Option.map_eq_some_iff.1 h
        exact ⟨e, rfl, .mark hc (natural?_eq_some_iff.1 he)⟩
    · exact nomatch h

/-- Characters of a class are taken up to the first one that is not of it. -/
theorem takeWhile_append {p : Char → Bool} {front rest : List Char} (hfront : ∀ c ∈ front, p c)
    (hrest : rest = [] ∨ ∃ c more, rest = c :: more ∧ ¬ p c) :
    (front ++ rest).takeWhile p = front ∧ (front ++ rest).dropWhile p = rest := by
  rw [List.takeWhile_append_of_pos hfront, List.dropWhile_append_of_pos hfront]
  rcases hrest with rfl | ⟨c, more, rfl, hc⟩
  · exact ⟨List.append_nil _, rfl⟩
  · rw [List.takeWhile_cons_of_neg hc, List.dropWhile_cons_of_neg hc]
    exact ⟨List.append_nil _, rfl⟩

/-- A text without a point after its first digits is digits and a power. -/
theorem unsigned?_of_no_point (h : ∀ rest, text.dropWhile Char.isDigit ≠ '.' :: rest) :
    unsigned? text = (natural? 10 (text.takeWhile Char.isDigit)).bind fun n =>
      (exponent? (text.dropWhile Char.isDigit)).map (toDouble n) := by
  unfold unsigned?
  dsimp only
  split
  · rename_i rest hrest
    exact absurd hrest (h rest)
  · dsimp only
    rw [List.append_nil]
    cases natural? 10 (text.takeWhile Char.isDigit) with
    | none => rfl
    | some n =>
      cases exponent? (text.dropWhile Char.isDigit) with
      | none => rfl
      | some i => exact congrArg (fun i : Int => some (toDouble n i)) (Int.sub_zero i)

/-- A text with a point after its first digits goes on with more digits and a power. -/
theorem unsigned?_of_point {rest : List Char} (h : text.dropWhile Char.isDigit = '.' :: rest) :
    unsigned? text =
      (natural? 10 (text.takeWhile Char.isDigit ++ rest.takeWhile Char.isDigit)).bind fun n =>
        (exponent? (rest.dropWhile Char.isDigit)).map fun i =>
          toDouble n (i - (rest.takeWhile Char.isDigit).length) := by
  unfold unsigned?
  simp only [h]
  cases natural? 10 (text.takeWhile Char.isDigit ++ rest.takeWhile Char.isDigit) with
  | none => rfl
  | some n => cases exponent? (rest.dropWhile Char.isDigit) <;> rfl

/-- **The reader of decimal numerals** accepts every unsigned numeral, as the double nearest to
it. -/
theorem Unsigned.unsigned? (h : Unsigned text x) : unsigned? text = some x := by
  cases h with
  | @whole digits power n e hdigits hpower =>
    obtain ⟨htake, hdrop⟩ := takeWhile_append (fun _ => hdigits.isDigit_of_mem)
      (hpower.eq_nil_or.imp_right fun ⟨c, more, h, hc, _⟩ => ⟨c, more, h, hc⟩)
    rw [unsigned?_of_no_point, htake, hdrop, natural?_eq_some_iff.2 hdigits, hpower.exponent?]
    · rfl
    · intro rest hrest
      rw [hdrop] at hrest
      rcases hpower.eq_nil_or with h | ⟨c, more, h, -, hc⟩
      · exact nomatch h.symm.trans hrest
      · exact hc (List.cons.inj (h.symm.trans hrest)).1
  | @pointed digits fraction power n e hdigits hpower =>
    have hmem : ∀ c ∈ digits ++ fraction, c.isDigit := fun _ => hdigits.isDigit_of_mem
    have hrest : power = [] ∨ ∃ c more, power = c :: more ∧ ¬ c.isDigit :=
      hpower.eq_nil_or.imp_right fun ⟨c, more, h, hc, _⟩ => ⟨c, more, h, hc⟩
    have hpoint : ¬ Char.isDigit '.' := by decide
    obtain ⟨htake, hdrop⟩ := takeWhile_append
      (fun c hc => hmem c (List.mem_append_left _ hc)) (.inr ⟨'.', fraction ++ power, rfl, hpoint⟩)
    obtain ⟨htake', hdrop'⟩ := takeWhile_append
      (fun c hc => hmem c (List.mem_append_right _ hc)) hrest
    rw [unsigned?_of_point hdrop, htake, htake', hdrop', natural?_eq_some_iff.2 hdigits,
      hpower.exponent?]
    rfl

/-- In a text without signs, what the reader of decimal numerals accepts is an unsigned numeral. -/
theorem unsigned_of_unsigned? (hplus : '+' ∉ text) (hminus : '-' ∉ text)
    (h : unsigned? text = some x) : Unsigned text x := by
  have hafter : text.dropWhile Char.isDigit <:+ text := List.dropWhile_suffix _
  have hpower : ∀ {part : List Char} {i : Int}, part <:+ text → exponent? part = some i →
      ∃ e : Nat, i = e ∧ Power part e := fun hpart =>
    power_of_exponent? (fun hc => hplus (hpart.mem hc)) (fun hc => hminus (hpart.mem hc))
  rw [← List.takeWhile_append_dropWhile (p := Char.isDigit) (l := text)]
  by_cases hpoint : ∃ rest, text.dropWhile Char.isDigit = '.' :: rest
  · obtain ⟨rest, hrest⟩ := hpoint
    rw [unsigned?_of_point hrest] at h
    obtain ⟨n, hn, h⟩ := Option.bind_eq_some_iff.1 h
    obtain ⟨i, hi, rfl⟩ := Option.map_eq_some_iff.1 h
    have hsuffix : rest.dropWhile Char.isDigit <:+ text :=
      ((List.dropWhile_suffix _).trans (List.suffix_cons '.' rest)).trans (hrest ▸ hafter)
    obtain ⟨e, rfl, he⟩ := hpower hsuffix hi
    have := Unsigned.pointed (natural?_eq_some_iff.1 hn) he
    rwa [List.takeWhile_append_dropWhile, ← hrest] at this
  · rw [unsigned?_of_no_point fun rest hrest => hpoint ⟨rest, hrest⟩] at h
    obtain ⟨n, hn, h⟩ := Option.bind_eq_some_iff.1 h
    obtain ⟨i, hi, rfl⟩ := Option.map_eq_some_iff.1 h
    obtain ⟨e, rfl, he⟩ := hpower hafter hi
    exact .whole (natural?_eq_some_iff.1 hn) he

end Spreadsheet.Decimal
