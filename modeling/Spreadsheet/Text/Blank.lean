/-! # Blank characters
The **blank** characters are the 25 code points with the Unicode property `White_Space`. Operands
of a formula are read without the blanks around them, so `trim` drops them from both ends of a
text and keeps those inside. -/

namespace Spreadsheet.Text

/-- The code points that count as blank, as closed ranges in ascending order. -/
def blankRanges : List (Nat × Nat) :=
  [(0x09, 0x0D), (0x20, 0x20), (0x85, 0x85), (0xA0, 0xA0), (0x1680, 0x1680), (0x2000, 0x200A),
    (0x2028, 0x2029), (0x202F, 0x202F), (0x205F, 0x205F), (0x3000, 0x3000)]

/-- Whether a character is blank. -/
def isBlank (c : Char) : Bool :=
  blankRanges.any fun (first, last) => first ≤ c.toNat && c.toNat ≤ last

/-- The characters of a text without the blanks at its two ends. -/
def trim (text : List Char) : List Char :=
  ((text.dropWhile isBlank).reverse.dropWhile isBlank).reverse

/-- Blanks in front do not change what is left. -/
theorem trim_cons_of_isBlank {c : Char} (text : List Char) (h : isBlank c = true) :
    trim (c :: text) = trim text := by
  simp [trim, h]

/-- What is left are characters of the text. -/
theorem mem_of_mem_trim {c : Char} {text : List Char} (h : c ∈ trim text) : c ∈ text := by
  have hreverse := (List.dropWhile_sublist isBlank).subset (List.mem_reverse.1 h)
  exact (List.dropWhile_sublist isBlank).subset (List.mem_reverse.1 hreverse)

/-- A front part of a text without blanks in front has none either. -/
theorem dropWhile_isBlank_of_prefix {text part : List Char} (h : part <+: text.dropWhile isBlank) :
    part.dropWhile isBlank = part := by
  cases part with
  | nil => rfl
  | cons c rest =>
    obtain ⟨back, hback⟩ := h
    have hhead := List.head?_dropWhile_not isBlank text
    rw [← hback] at hhead
    exact List.dropWhile_cons_of_neg (by simpa using hhead)

/-- What is left has no blanks at its ends. -/
theorem trim_trim (text : List Char) : trim (trim text) = trim text := by
  have hfront : trim text <+: text.dropWhile isBlank := by
    have := List.reverse_prefix.2
      (List.dropWhile_suffix (l := (text.dropWhile isBlank).reverse) isBlank)
    rwa [List.reverse_reverse] at this
  rw [trim, dropWhile_isBlank_of_prefix hfront, trim, List.reverse_reverse,
    dropWhile_isBlank_of_prefix List.prefix_rfl]

/-- A text without blanks is left as it is. -/
theorem trim_of_forall {text : List Char} (h : ∀ c ∈ text, isBlank c = false) :
    trim text = text := by
  have hdrop : ∀ {text : List Char}, (∀ c ∈ text, isBlank c = false) →
      text.dropWhile isBlank = text := by
    intro text h
    cases text with
    | nil => rfl
    | cons c rest => exact List.dropWhile_cons_of_neg (by simp [h c List.mem_cons_self])
  rw [trim, hdrop h, hdrop fun c hc => h c (List.mem_reverse.1 hc), List.reverse_reverse]

/-- A blank at the end does not change what is left. -/
theorem trim_concat_of_isBlank {c : Char} (text : List Char) (h : isBlank c = true) :
    trim (text ++ [c]) = trim text := by
  rw [trim, List.dropWhile_append]
  split
  · rename_i hempty
    rw [List.dropWhile_cons_of_pos h, trim, List.isEmpty_iff.1 hempty]
    rfl
  · rw [List.reverse_append, List.reverse_singleton, List.singleton_append,
      List.dropWhile_cons_of_pos h, trim]

end Spreadsheet.Text
