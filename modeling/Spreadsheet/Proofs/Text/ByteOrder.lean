import Mathlib.Data.String.Basic
import Mathlib.Tactic.IntervalCases

/-! # The order of bytes
Texts are compared character by character. Their UTF-8 **bytes** are in the same order, since of two
characters the lesser one has the lesser encoding, whatever follows it. An encoding is a first byte,
which is the greater the more **trailing** bytes follow it, and then the trailing ones with six bits
each: either the first bytes differ, or there are as many bytes and the first ones that differ
decide. -/

namespace Spreadsheet.Text

/-- The bytes of a text in UTF-8. -/
def bytes (text : String) : List UInt8 := text.toUTF8.data.toList

theorem bytes_eq_flatMap (text : String) :
    bytes text = text.toList.flatMap String.utf8EncodeChar := by
  conv_lhs => rw [← String.ofList_toList (s := text)]
  rw [bytes, String.toUTF8_eq_toByteArray, String.toByteArray_ofList]
  simp [List.utf8Encode]

variable {m n k : Nat} {after after' : List UInt8}

theorem ofNat_cons_lt (hn : n < 256) (h : m < n ∨ m = n ∧ after < after') :
    UInt8.ofNat m :: after < UInt8.ofNat n :: after' := by
  rw [List.cons_lt_cons_iff]
  refine h.imp (fun hlt => ?_) (And.imp_left (congrArg UInt8.ofNat))
  rw [UInt8.lt_iff_toNat_lt, UInt8.toNat_ofNat_of_lt' (hlt.trans hn), UInt8.toNat_ofNat_of_lt' hn]
  exact hlt

/-- The last bytes of the encoding of a code point, with six bits each. -/
def trailing (v : Nat) : Nat → List UInt8
  | 0 => []
  | k + 1 => UInt8.ofNat (v / 64 ^ k % 64 + 0x80) :: trailing v k

/-- Of two code points that agree before their last bits the lesser one has the lesser trailing
bytes. -/
theorem trailing_append_lt (h : m < n) (heq : m / 64 ^ k = n / 64 ^ k) :
    trailing m k ++ after < trailing n k ++ after' := by
  induction k with
  | zero => exact absurd heq (by simpa using h.ne)
  | succ k ih =>
    have hle : m / 64 ^ k ≤ n / 64 ^ k := Nat.div_le_div_right h.le
    rw [Nat.pow_succ, ← Nat.div_div_eq_div_mul, ← Nat.div_div_eq_div_mul] at heq
    refine ofNat_cons_lt (by omega) ?_
    rcases hle.lt_or_eq with hlt | hsame
    · exact .inl (by omega)
    · exact .inr ⟨by rw [hsame], ih hsame⟩

/-- What the first byte adds to its bits if so many bytes follow. -/
def mark : Nat → Nat
  | 0 => 0
  | 1 => 0xc0
  | 2 => 0xe0
  | _ => 0xf0

/-- The code points below this bound need at most so many bytes after the first. -/
def bound : Nat → Nat
  | 0 => 0x80
  | 1 => 0x800
  | 2 => 0x10000
  | _ => 0x110000

/-- A character is encoded by a first byte and no more trailing bytes than it needs. -/
theorem exists_utf8EncodeChar_eq (c : Char) : ∃ k ≤ 3, c.toNat < bound k ∧
    (∀ j < k, bound j ≤ c.toNat) ∧
    String.utf8EncodeChar c = UInt8.ofNat (c.toNat / 64 ^ k + mark k) :: trailing c.toNat k := by
  have hmax : c.toNat < 0x110000 := by
    have := c.valid
    simp only [UInt32.isValidChar, Nat.isValidChar] at this
    exact this.elim (fun h => h.trans (by decide)) And.right
  rw [String.utf8EncodeChar, show c.val.toNat = c.toNat from rfl]
  generalize c.toNat = v at *
  split_ifs with h₀ h₁ h₂
  · exact ⟨0, by decide, Nat.lt_succ_of_le h₀, by simp, by simp [mark, trailing]⟩
  · refine ⟨1, by decide, Nat.lt_succ_of_le h₁, fun j hj => ?_, ?_⟩
    · interval_cases j
      exact Nat.lt_of_not_le h₀
    · rw [Nat.mod_eq_of_lt (by omega)]
      simp [mark, trailing]
  · refine ⟨2, by decide, Nat.lt_succ_of_le h₂, fun j hj => ?_, ?_⟩
    · interval_cases j <;> simp only [bound] <;> omega
    · rw [Nat.mod_eq_of_lt (by omega)]
      simp [mark, trailing]
  · refine ⟨3, by decide, hmax, fun j hj => ?_, ?_⟩
    · interval_cases j <;> simp only [bound] <;> omega
    · rw [Nat.mod_eq_of_lt (by omega)]
      simp [mark, trailing]

/-- The encoding of a lesser character comes first, whatever follows. -/
theorem utf8EncodeChar_append_lt {c d : Char} (h : c < d) (after after' : List UInt8) :
    String.utf8EncodeChar c ++ after < String.utf8EncodeChar d ++ after' := by
  have hlt : c.toNat < d.toNat := h
  obtain ⟨k, hk, hbelow, habove, hc⟩ := exists_utf8EncodeChar_eq c
  obtain ⟨l, hl, hbelow', habove', hd⟩ := exists_utf8EncodeChar_eq d
  rw [hc, hd]
  generalize c.toNat = m at *
  generalize d.toNat = n at *
  have hbyte : n / 64 ^ l + mark l < 256 := by
    interval_cases l <;> simp only [bound, mark] at hbelow' ⊢ <;> omega
  refine ofNat_cons_lt hbyte ?_
  rcases Nat.lt_trichotomy k l with hkl | rfl | hkl
  · -- more bytes follow, so the first byte is greater
    have hmore := habove' k hkl
    left
    interval_cases l <;> interval_cases k <;> simp only [bound, mark] at hbelow hmore ⊢ <;> omega
  · rcases (Nat.div_le_div_right hlt.le : m / 64 ^ k ≤ n / 64 ^ k).lt_or_eq with hfirst | hfirst
    · exact .inl (Nat.add_lt_add_right hfirst _)
    · exact .inr ⟨congrArg (· + mark k) hfirst, trailing_append_lt hlt hfirst⟩
  · exact absurd (hlt.trans hbelow') (habove l hkl).not_gt

/-- A text that comes first has bytes that come first. -/
theorem flatMap_utf8EncodeChar_lt {a b : List Char} (h : a < b) :
    a.flatMap String.utf8EncodeChar < b.flatMap String.utf8EncodeChar := by
  induction b generalizing a with
  | nil => exact absurd h (List.not_lt_nil a)
  | cons d b ih =>
    cases a with
    | nil =>
      obtain ⟨l, -, -, -, hd⟩ := exists_utf8EncodeChar_eq d
      rw [List.flatMap_nil, List.flatMap_cons, hd]
      exact List.nil_lt_cons _ _
    | cons c a =>
      rw [List.flatMap_cons, List.flatMap_cons]
      rcases List.cons_lt_cons_iff.1 h with hlt | ⟨rfl, hrest⟩
      · exact utf8EncodeChar_append_lt hlt _ _
      · exact List.append_left_lt (ih hrest)

/-- **Texts are in the order of their bytes.** -/
theorem bytes_lt_bytes_iff {a b : String} : bytes a < bytes b ↔ a < b := by
  have hkeep : ∀ {a b : String}, a < b → bytes a < bytes b := fun {a b} h => by
    rw [bytes_eq_flatMap, bytes_eq_flatMap]
    exact flatMap_utf8EncodeChar_lt (String.lt_iff.1 h)
  refine ⟨fun h => ?_, hkeep⟩
  rcases lt_trichotomy a b with hlt | rfl | hgt
  · exact hlt
  · exact absurd h (List.lt_irrefl _)
  · exact absurd (List.lt_trans h (hkeep hgt)) (List.lt_irrefl _)

end Spreadsheet.Text
