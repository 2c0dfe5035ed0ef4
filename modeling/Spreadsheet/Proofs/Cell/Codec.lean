import Spreadsheet.Proofs.Formula.Operands

/-! # Keys and positions as a code
Reading a key as a position and writing a position as its canonical key are inverse to each other. A
key has a position exactly when its digits, however many leading zeros they have, denote a number
from one up to the greatest word; the first letter is the column. Of all keys with one position the
canonical one is the only one with a single letter and no leading zero, and it is what the alias of
the keys with more letters is. -/

namespace Spreadsheet.Key

open Decimal

variable {key other : String} {p q : Position} {digits : List Char} {first : Char} {n row : Nat}

/-- The text is letters, of which the first one is given, and then digits that denote a number. -/
def Spells (text : List Char) (first : Char) (n : Nat) : Prop :=
  ∃ more digits, text = first :: more ++ digits ∧
    (∀ c ∈ first :: more, 'A' ≤ c ∧ c ≤ 'Z') ∧ Denotes 10 digits n

/-- Digits are read as a row if the number that they denote is one more. -/
theorem row?_eq_some_iff :
    row? digits = some row ↔ Denotes 10 digits (row + 1) ∧ row + 1 < Nat.pow 2 64 := by
  rw [← word?_eq_some_iff, row?]
  constructor
  · intro h
    split at h
    · rename_i n hn
      rw [hn, Option.some.inj h]
    · cases h
  · intro h
    rw [h]

/-- **The position of a key** is its first letter and the number that its digits denote. -/
theorem position?_eq_some_iff : position? key = some p ↔
    ∃ first n, Spells key.toList first n ∧ 1 ≤ n ∧ n < Nat.pow 2 64 ∧
      p = ⟨first.toNat - 'A'.toNat, n - 1⟩ := by
  constructor
  · intro h
    obtain ⟨first, more, digits, hparts, hrow, hfirst, -⟩ := exists_parts?_of_position? h
    obtain ⟨happend, -, -, hletters, -⟩ := append_of_parts? hparts
    obtain ⟨hdenotes, hword⟩ := row?_eq_some_iff.1 hrow
    refine ⟨first, p.row + 1, ⟨more, digits, happend.symm, fun c hc => ?_, hdenotes⟩,
      Nat.succ_pos _, hword, ?_⟩
    · exact isLetter_iff.1 (hletters c hc)
    · rw [hfirst, Nat.add_sub_cancel, Nat.add_sub_cancel]
  · rintro ⟨first, n, ⟨more, digits, htext, hletters, hdenotes⟩, hpos, hword, rfl⟩
    have hparts : parts? key.toList = some (first :: more, digits) := by
      rw [htext]
      exact parts?_append (List.cons_ne_nil first more) hdenotes.ne_nil
        (fun c hc => isLetter_iff.2 (hletters c hc)) fun _ => hdenotes.isDigit_of_mem
    have hrow : row? digits = some (n - 1) := by
      rw [row?_eq_some_iff, Nat.sub_add_cancel hpos]
      exact ⟨hdenotes, hword⟩
    rw [position?, hparts]
    dsimp only
    rw [hrow, Option.map_some]

/-- A text that spells a letter and a number is a cell key. -/
theorem Spells.isKey {text : List Char} (h : Spells text first n) : isKey text = true := by
  obtain ⟨more, digits, rfl, hletters, hdenotes⟩ := h
  exact isKey_iff.2 ⟨_, _, parts?_append (List.cons_ne_nil first more) hdenotes.ne_nil
    (fun c hc => isLetter_iff.2 (hletters c hc)) fun _ => hdenotes.isDigit_of_mem⟩

/-- Positions with the same canonical key are equal. -/
theorem eq_of_ofPosition? (hp : p.row + 1 < wordBound) (hq : q.row + 1 < wordBound)
    (h : ofPosition? p = some key) (h' : ofPosition? q = some key) : p = q :=
  Option.some.inj ((position?_of_ofPosition? hp h).symm.trans (position?_of_ofPosition? hq h'))

/-- **An alias** is another key of the same position, with one letter, and so without an alias of
its own. -/
theorem of_alias?_eq_some (h : alias? key = some other) :
    ∃ p, position? key = some p ∧ position? other = some p ∧ HasOneLetter other ∧
      ¬ HasOneLetter key := by
  have hletters : ¬ HasOneLetter key := fun hone =>
    nomatch (alias?_of_hasOneLetter hone).symm.trans h
  obtain ⟨p, hposition⟩ : ∃ p, position? key = some p := by
    unfold alias? at h
    split at h
    · obtain ⟨p, hp, -⟩ := Option.bind_eq_some_iff.1 h
      exact ⟨p, hp⟩
    · exact nomatch h
  obtain ⟨_, _, _, -, hrow, -⟩ := exists_parts?_of_position? hposition
  rw [alias?_eq_ofPosition? hposition hletters] at h
  have hsame := position?_of_ofPosition? (lt_of_row? hrow) h
  exact ⟨p, hposition, hsame, ((ofPosition?_eq_self_iff hsame).1 h).1, hletters⟩

/-- **Reading and writing keys.** A key is letters `A` to `Z` and then digits. It has a position
exactly when the number that its digits denote is one or more and below `2 ^ 64`, and the position
is then the place of its first letter in the alphabet and that number less one. A position with a
column below 26 and a row below `2 ^ 64 - 1` is written as a key that has this position, and that
no other such position is written as; among the keys of the position it is the one with one letter
and no leading zero. An alias of a key is another key of the same position and has no alias
itself. -/
theorem keys_encode_positions :
    (∀ key : String, isKey key.toList = true ↔ LettersThenDigits key.toList) ∧
    (∀ key : String, (position? key).isSome ↔ isKey key.toList = true ∧
      ∃ first n, Spells key.toList first n ∧ 1 ≤ n ∧ n < Nat.pow 2 64) ∧
    (∀ key p, position? key = some p ↔ ∃ first n, Spells key.toList first n ∧ 1 ≤ n ∧
      n < Nat.pow 2 64 ∧ p = ⟨first.toNat - 'A'.toNat, n - 1⟩) ∧
    (∀ p : Position, p.column < 26 → p.row < Nat.pow 2 64 - 1 →
      ∃ key, ofPosition? p = some key ∧ position? key = some p ∧
        HasOneLetter key ∧ ¬ HasLeadingZero key ∧
        (∀ other, position? other = some p → HasOneLetter other → ¬ HasLeadingZero other →
          other = key) ∧
        ∀ q : Position, q.column < 26 → q.row < Nat.pow 2 64 - 1 → q ≠ p →
          ofPosition? q ≠ some key) ∧
    ∀ key other, alias? key = some other →
      (∃ p, position? key = some p ∧ position? other = some p) ∧ other ≠ key ∧
        alias? other = none := by
  refine ⟨fun key => isKey_iff_lettersThenDigits, fun key => ?_, fun key p => position?_eq_some_iff,
    fun p hcolumn hrow => ?_, fun key other halias => ?_⟩
  · rw [Option.isSome_iff_exists]
    constructor
    · rintro ⟨p, hp⟩
      obtain ⟨first, n, hspells, hpos, hword, -⟩ := position?_eq_some_iff.1 hp
      exact ⟨hspells.isKey, first, n, hspells, hpos, hword⟩
    · rintro ⟨-, first, n, hspells, hpos, hword⟩
      exact ⟨_, position?_eq_some_iff.2 ⟨first, n, hspells, hpos, hword, rfl⟩⟩
  · have hword : ∀ {r : Nat}, r < Nat.pow 2 64 - 1 → r + 1 < wordBound := Nat.add_lt_of_lt_sub
    obtain ⟨key, hkey⟩ : ∃ key, ofPosition? p = some key := ⟨_, if_pos hcolumn⟩
    have hposition := position?_of_ofPosition? (hword hrow) hkey
    obtain ⟨hone, hzero⟩ := (ofPosition?_eq_self_iff hposition).1 hkey
    refine ⟨key, hkey, hposition, hone, hzero, fun other hother hone' hzero' => ?_,
      fun q _ hrow' hne h => hne (eq_of_ofPosition? (hword hrow') (hword hrow) h hkey)⟩
    exact Option.some.inj
      (((ofPosition?_eq_self_iff hother).2 ⟨hone', hzero'⟩).symm.trans hkey)
  · obtain ⟨p, hposition, hsame, hone, hletters⟩ := of_alias?_eq_some halias
    exact ⟨⟨p, hposition, hsame⟩, fun heq => hletters (heq ▸ hone), alias?_of_hasOneLetter hone⟩

/-- The second cell of the twelfth row is written `B12`, and `BA012` is another key of it, whose
alias is `B12`. -/
theorem second_cell_of_twelfth_row :
    (∃ key, ofPosition? ⟨1, 11⟩ = some key ∧ position? key = some ⟨1, 11⟩ ∧ HasOneLetter key ∧
      ¬ HasLeadingZero key ∧ ofPosition? ⟨2, 11⟩ ≠ some key) ∧
    alias? "BA012" = some "B12" ∧ "B12" ≠ "BA012" ∧ alias? "B12" = none := by
  obtain ⟨-, -, -, hwritten, haliases⟩ := keys_encode_positions
  obtain ⟨key, hkey, hposition, hone, hzero, -, hother⟩ :=
    hwritten ⟨1, 11⟩ (by decide) (by decide)
  have halias : alias? "BA012" = some "B12" := by decide +kernel
  obtain ⟨-, hne, hnone⟩ := haliases "BA012" "B12" halias
  exact ⟨⟨key, hkey, hposition, hone, hzero, hother ⟨2, 11⟩ (by decide) (by decide) (by decide)⟩,
    halias, hne, hnone⟩

end Spreadsheet.Key
