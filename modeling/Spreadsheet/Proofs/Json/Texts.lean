import Spreadsheet.Proofs.Json.Numbers

/-! # Values read back
Every character is escaped or stands for itself, so what is quoted is read back as it was, whatever
its characters. A value is **read back** as another one if the reader takes its compact text off the
front of any text that ends it and gives the other value. An object is read back as the object of
the values that its own are read back as. -/

namespace Spreadsheet.Json

open Decimal

variable {rest text more : List Char} {c letter : Char} {depth n : Nat} {x y : Float}

/-! ## Strings -/

/-- What is read after a character, with the character in front. -/
def readAfter (c : Char) (more : List Char) : Option (List Char × List Char) :=
  (readString more).map fun (text, rest) => (c :: text, rest)

/-- An escape of one letter is read as the character that the letter stands for. -/
theorem readString_letter (hletter : letter ≠ 'u') (h : unescape? letter = some c) :
    readString ('\\' :: letter :: more) = readAfter c more := by
  simp [readString, readAfter, hletter, h, Option.map_eq_bind]

/-- A character that needs no escape is read as it is. -/
theorem readString_plain (hquote : c ≠ '\x22') (hslash : c ≠ '\\') (h : ¬ c.toNat < 0x20) :
    readString (c :: more) = readAfter c more := by
  simp [readString, readAfter, hslash, h, Option.map_eq_bind]

/-- The four digits of a control character are its number. -/
theorem codeUnit?_control : ∀ n : Fin 32,
    codeUnit? '0' '0' (hexDigit (n.val / 16)) (hexDigit (n.val % 16)) = some n.val := by
  decide

/-- A control character is read from its number. -/
theorem readString_control (h : c.toNat < 0x20) :
    readString ('\\' :: 'u' :: '0' :: '0' :: hexDigit (c.toNat / 16) :: hexDigit (c.toNat % 16) ::
      more) = readAfter c more := by
  have hlow : ¬ 0xD800 ≤ c.toNat := by omega
  have hhigh : ¬ 0xDC00 ≤ c.toNat := by omega
  have hunit := codeUnit?_control ⟨c.toNat, h⟩
  rw [readString, hunit]
  simp [hlow, hhigh, readAfter, Option.map_eq_bind, Char.ofNat_toNat]

/-- **An escaped character is read as the character.** -/
theorem readString_escape (c : Char) (more : List Char) :
    readString (escape c ++ more) = readAfter c more := by
  unfold escape
  -- seven characters have a letter of their own, other control characters their number
  split_ifs with hquote hslash _ _ _ _ _ hcontrol
  all_goals try subst c
  · exact readString_letter (by decide) rfl
  · exact readString_letter (by decide) rfl
  · exact readString_letter (by decide) rfl
  · exact readString_letter (by decide) rfl
  · exact readString_letter (by decide) rfl
  · exact readString_letter (by decide) rfl
  · exact readString_letter (by decide) rfl
  · exact readString_control hcontrol
  · exact readString_plain hquote hslash hcontrol

/-- **What is quoted is read back.** -/
theorem readString_quoted (text rest : List Char) :
    readString (text.foldr (fun c more => escape c ++ more) ('\x22' :: rest)) =
      some (text, rest) := by
  induction text with
  | nil => rfl
  | cons c text ih => rw [List.foldr_cons, readString_escape, readAfter, ih, Option.map_some]

/-! ## Values -/

/-- A value is **read back** as another one, inside at most so many more arrays and objects: the
reader takes it off the front of any text that ends it. -/
def IsReadBack (depth : Nat) (value result : Json) : Prop :=
  ∀ rest, Ends rest → read depth (value.write rest) = some (result, rest)

theorem skipSpace_cons (h : isSpace c = false) : skipSpace (c :: more) = c :: more :=
  List.dropWhile_cons_of_neg (by rw [h]; exact Bool.false_ne_true)

/-- A character that is no space and opens neither an array nor an object starts a leaf. -/
theorem read_cons (hspace : isSpace c = false) (hopen : c ≠ '[' ∧ c ≠ '{') :
    read depth (c :: more) = readLeaf (c :: more) := by
  cases depth with
  | zero => simp [read, skipSpace_cons hspace, hopen]
  | succ depth => simp [read, skipSpace_cons hspace, hopen]

/-- A digit or a minus sign starts a number. -/
theorem read_of_number (h : c.isDigit ∨ c = '-') :
    read depth (c :: more) = readNumber (c :: more) := by
  have hne : ∀ other : Char, ¬ other.isDigit → other ≠ '-' → c ≠ other := by
    rintro other hdigit hminus rfl
    exact h.elim hdigit hminus
  have hspace : isSpace c = false := by
    simp [isSpace, hne]
  rw [read_cons hspace ⟨hne _ (by decide) (by decide), hne _ (by decide) (by decide)⟩]
  unfold readLeaf
  split
  all_goals first
    | rfl
    | exact absurd (List.cons.inj ‹_›).1 (hne _ (by decide) (by decide))

theorem quote_append (text front rest : List Char) :
    quote text front ++ rest = quote text (front ++ rest) := by
  rw [quote, quote, List.cons_append]
  congr 1
  induction text with
  | nil => rfl
  | cons c text ih => rw [List.foldr_cons, List.foldr_cons, List.append_assoc, ih]

/-- **A text is read back as it is**, whatever its characters. -/
theorem isReadBack_string (depth : Nat) (s : String) :
    IsReadBack depth (.string s) (.string s) := by
  intro rest _
  have hwrite : (string s).write rest = quote s.toList rest := quote_append s.toList [] rest
  rw [hwrite, quote, read_cons rfl (by decide), readLeaf, readString_quoted, Option.map_some]
  exact congrArg (fun s => some (string s, rest)) String.ofList_toList

/-- **A finite double is read back** as the double that the reader of numbers gives for its
text. -/
theorem exists_isReadBack_double (depth : Nat) (h : x.isFinite) :
    ∃ y, readNumber (Decimal.jsonDouble.render (.ofDouble x)).toList = some (.double y, []) ∧
      IsReadBack depth (.double x) (.double y) := by
  obtain ⟨⟨y, hy⟩, c, more, htext, hc⟩ := exists_readNumber h
  have hwhole := hy [] (.inl rfl)
  rw [List.append_nil] at hwhole
  refine ⟨y, hwhole, fun rest hrest => ?_⟩
  rw [← hy rest hrest]
  change read depth ((jsonDouble.render (.ofDouble x)).toList ++ rest) = _
  rw [htext, List.cons_append]
  exact read_of_number hc

/-! ## Objects -/

/-- A field is read back under the same name. -/
structure FieldIsReadBack (depth : Nat) (field result : String × Json) : Prop where
  /-- The name is kept. -/
  name_eq : field.1 = result.1
  /-- The value is read back. -/
  value : IsReadBack depth field.2 result.2

/-- A field is taken off the front of a text that ends its value. -/
theorem FieldIsReadBack.readField {field result : String × Json}
    (h : FieldIsReadBack depth field result) (hrest : Ends rest) :
    readField (read depth) (quote field.1.toList (':' :: field.2.write rest)) =
      some (result, rest) := by
  obtain ⟨name, value⟩ := field
  obtain ⟨name', value'⟩ := result
  obtain ⟨rfl, hvalue⟩ := h
  rw [Json.readField, quote, skipSpace_cons rfl]
  simp only [readString_quoted, Option.bind_eq_bind, Option.bind_some, skipSpace_cons (c := ':') rfl,
    hvalue rest hrest]
  exact congrArg (fun s => some ((s, value'), rest)) String.ofList_toList

variable {fields results : List (String × Json)}

/-- **Fields are read back one by one**, up to the closing brace. -/
theorem readItems_writeFields (h : List.Forall₂ (FieldIsReadBack depth) fields results)
    (hne : fields ≠ []) (hn : fields.length ≤ n) (rest : List Char) :
    readItems (readField (read depth)) '}' n (writeFields fields ('}' :: rest)) =
      some (results, rest) := by
  induction h generalizing n with
  | nil => exact absurd rfl hne
  | @cons field result fields results hfield hmore ih =>
    obtain ⟨n, rfl⟩ := Nat.exists_eq_succ_of_ne_zero
      (Nat.ne_of_gt (Nat.lt_of_lt_of_le (Nat.succ_pos _) hn))
    have hlength := Nat.le_of_succ_le_succ hn
    cases hmore with
    | nil =>
      rw [writeFields, readItems, hfield.readField (.inr ⟨'}', rest, rfl, .inr (.inr rfl)⟩)]
      rfl
    | cons hnext hmore =>
      rw [writeFields, readItems, hfield.readField (.inr ⟨',', _, rfl, .inl rfl⟩)]
      · simp only [Option.bind_eq_bind, Option.bind_some, skipSpace_cons (c := ',') rfl,
          ih (List.cons_ne_nil _ _) hlength]
        rfl
      · exact List.cons_ne_nil _ _

theorem length_quote_gt (text rest : List Char) : rest.length < (quote text rest).length := by
  rw [quote, List.length_cons]
  induction text with
  | nil => exact Nat.lt_succ_of_lt (Nat.lt_succ_self _)
  | cons c text ih =>
    rw [List.foldr_cons, List.length_append]
    omega

mutual

/-- A value is written in front of a text. -/
theorem length_le_write : ∀ (value : Json) (rest : List Char),
    rest.length ≤ (value.write rest).length
  | array items, rest => by
    have := length_le_writeItems items (']' :: rest)
    rw [write]
    simp only [List.length_cons] at this ⊢
    omega
  | object fields, rest => by
    have := length_le_writeFields fields ('}' :: rest)
    rw [write]
    simp only [List.length_cons] at this ⊢
    omega
  | null, rest | bool _, rest | nat _, rest | double _, rest | single _, rest | string _, rest => by
    simp [write]

theorem length_le_writeItems : ∀ (items : List Json) (rest : List Char),
    rest.length ≤ (writeItems items rest).length
  | [], rest => Nat.le_refl _
  | [item], rest => length_le_write item rest
  | item :: next :: more, rest => by
    have := length_le_writeItems (next :: more) rest
    have := length_le_write item (',' :: writeItems (next :: more) rest)
    rw [writeItems]
    · simp only [List.length_cons] at *
      omega
    · exact List.cons_ne_nil _ _

/-- Each field takes up room. -/
theorem length_le_writeFields : ∀ (fields : List (String × Json)) (rest : List Char),
    fields.length + rest.length ≤ (writeFields fields rest).length
  | [], rest => by simp [writeFields]
  | [(name, value)], rest => by
    have := length_le_write value rest
    have := length_quote_gt name.toList (':' :: value.write rest)
    rw [writeFields]
    simp only [List.length_cons, List.length_nil] at *
    omega
  | (name, value) :: next :: more, rest => by
    have := length_le_writeFields (next :: more) rest
    have := length_le_write value (',' :: writeFields (next :: more) rest)
    have := length_quote_gt name.toList
      (':' :: value.write (',' :: writeFields (next :: more) rest))
    rw [writeFields]
    · simp only [List.length_cons] at *
      omega
    · exact List.cons_ne_nil _ _

end

/-- **An object is read back** if its fields are, one level further in. -/
theorem isReadBack_object (h : List.Forall₂ (FieldIsReadBack depth) fields results) :
    IsReadBack (depth + 1) (.object fields) (.object results) := by
  intro rest _
  have hbody : readBody (readField (read depth)) '}' (writeFields fields ('}' :: rest)) =
      some (results, rest) := by
    cases h with
    | nil => rfl
    | @cons field result fields results hfield hmore =>
      -- there are at least as many characters left as fields
      have hlength := length_le_writeFields (field :: fields) ('}' :: rest)
      have hitems := readItems_writeFields (.cons hfield hmore) (List.cons_ne_nil _ _)
        (n := (writeFields (field :: fields) ('}' :: rest)).length + 1) (by omega) rest
      obtain ⟨more, hmore⟩ :
          ∃ more, writeFields (field :: fields) ('}' :: rest) = '\x22' :: more := by
        cases fields <;> exact ⟨_, rfl⟩
      rw [readBody, hmore, skipSpace_cons rfl]
      simp only
      rw [if_neg (by decide), ← hmore, hitems]
  rw [write, read, skipSpace_cons rfl]
  simp only [hbody]
  rfl

end Spreadsheet.Json
