import Spreadsheet.Proofs.Cell.Addressing
import Spreadsheet.Proofs.Engine.Events
import Spreadsheet.Proofs.Engine.Texts

/-! # The row grid agrees with the values
The row grid is a second copy of the sheet, kept write by write beside the values. In every engine
it has the shape of the sheet, with a number in front of each row; it shows the stored value
wherever some cell with a formula lies, however many share the place, and is blank wherever none
does, where the value is still the zero that it was at first. No evaluation leaves the bounds of
either copy. -/

namespace Spreadsheet

section LabelledRows

variable {shown : Grid String} {r c : Nat}

theorem length_labelledRows (shown : Grid String) :
    (labelledRows shown).length = shown.dimensions.height := by
  simp [labelledRows, Grid.rows]

theorem getElem?_labelledRows (hr : r < shown.dimensions.height) :
    (labelledRows shown)[r]? = some ((r + 1).repr :: shown.row r) := by
  simp [labelledRows, Grid.rows, hr]

end LabelledRows

namespace Graph

variable {g : Graph} {values : Grid Float32} {keys : List String} {e : Evaluation} {i : Nat}

/-- An evaluation that was stored went to the slot of its cell. -/
theorem slot?_of_write_evaluate {key : String}
    (h : (g.evaluate values key).1.write = .stored i) : values.dimensions.slot? key = some i := by
  cases hformula : g.table[key]? with
  | none =>
    rw [evaluate_of_eq_none hformula] at h
    cases h
  | some formula =>
    rw [evaluate_of_eq_some hformula] at h
    cases hslot : values.dimensions.slot? key with
    | none =>
      simp only [Grid.set, Grid.index?_eq_slot?, hslot] at h
      cases h
    | some j =>
      simp only [Grid.set, Grid.index?_eq_slot?, hslot, Write.stored.injEq] at h
      exact congrArg some h

theorem slot?_of_write_evaluateAll (he : e ∈ (g.evaluateAll values keys).1)
    (hwrite : e.write = .stored i) : values.dimensions.slot? e.key = some i := by
  induction keys generalizing values with
  | nil => exact absurd he List.not_mem_nil
  | cons key rest ih =>
    rw [evaluateAll_cons] at he
    rcases List.mem_cons.1 he with rfl | he
    · rw [key_evaluate]
      exact slot?_of_write_evaluate hwrite
    · rw [← ih he, dimensions_evaluate]

end Graph

namespace Engine

variable {fresh e : Engine} {d : Dimensions} {i r c : Nat}

/-- A new engine holds zero and shows nothing everywhere. -/
theorem cells_of_new (h : Engine.new d = .ok fresh) :
    fresh.values.cells = Array.replicate d.area 0 ∧
      fresh.shown.cells = Array.replicate d.area "" := by
  unfold Engine.new at h
  split at h
  · obtain rfl := Except.ok.inj h
    exact ⟨rfl, rfl⟩
  · cases h

/-- An index is in range for the values, and its row and column are for the row grid, which has one
more entry in front of each row. -/
def InRange (e : Engine) (i : Nat) : Prop :=
  i < e.values.cells.size ∧ ∃ row, e.snapshot.rows[i / e.dimensions.width]? = some row ∧
    i % e.dimensions.width + 1 < row.length

/-- The rows of an engine have the dimensions of its values. -/
theorem getElem?_rows (e : Engine) (hr : r < e.dimensions.height) :
    e.snapshot.rows[r]? = some ((r + 1).repr :: e.shown.row r) ∧
      (e.shown.row r).length = e.dimensions.width := by
  have hdim : e.shown.dimensions = e.dimensions := e.dimensions_eq
  rw [← hdim] at hr ⊢
  exact ⟨getElem?_labelledRows hr, Grid.length_row hr⟩

/-- What a key addresses is in range. -/
theorem inRange_of_slot? {key : String} (h : e.dimensions.slot? key = some i) : e.InRange i := by
  obtain ⟨harea, hrow, hcolumn⟩ := Dimensions.slot?_lt h
  obtain ⟨hrows, hlength⟩ := e.getElem?_rows hrow
  refine ⟨e.values.size_eq ▸ harea, _, hrows, ?_⟩
  rw [List.length_cons, hlength]
  exact Nat.succ_lt_succ hcolumn

/-- Where a cell with a formula lies, a sound engine shows the value. -/
theorem Sound.shown_of_position? {key : String} (hsound : Sound fresh e)
    (hr : r < e.dimensions.height) (hc : c < e.dimensions.width) (hkey : key ∈ e.graph.table)
    (hposition : Key.position? key = some ⟨c, r⟩) :
    ∃ value, e.values.cells[r * e.dimensions.width + c]? = some value ∧
      (e.shown.row r)[c]? = some (cellText value) := by
  have hslot := (Dimensions.slot?_eq_some_iff hr hc).2 hposition
  have hlt : r * e.dimensions.width + c < e.values.cells.size :=
    e.values.size_eq ▸ Dimensions.lt_area hr hc
  refine ⟨_, Array.getElem?_eq_getElem hlt, ?_⟩
  have hdim : e.shown.dimensions = e.dimensions := e.dimensions_eq
  rw [Grid.getElem?_row (hdim ▸ hr) (hdim ▸ hc), hdim, hsound.shows_values key hkey _ hslot,
    Array.getElem?_eq_getElem hlt, Option.map_some]

/-- Where no cell with a formula lies, an engine holds zero and shows nothing. -/
theorem Sound.blank_of_forall_ne (hnew : Engine.new d = .ok fresh) (hsound : Sound fresh e)
    (hr : r < e.dimensions.height) (hc : c < e.dimensions.width)
    (hfree : ∀ key ∈ e.graph.table, Key.position? key ≠ some ⟨c, r⟩) :
    e.values.cells[r * e.dimensions.width + c]? = some 0 ∧
      (e.shown.row r)[c]? = some "" := by
  -- no key has the slot, so it is as it was in the new engine
  have hslots : ∀ key ∈ e.graph.table,
      e.dimensions.slot? key ≠ some (r * e.dimensions.width + c) :=
    fun key hkey hslot => hfree key hkey ((Dimensions.slot?_eq_some_iff hr hc).1 hslot)
  have hdim : e.shown.dimensions = e.dimensions := e.dimensions_eq
  have harea : r * e.dimensions.width + c < d.area := by
    rw [← hsound.dimensions_eq hnew]
    exact Dimensions.lt_area hr hc
  obtain ⟨hvalues, hshown⟩ := cells_of_new hnew
  rw [Grid.getElem?_row (hdim ▸ hr) (hdim ▸ hc), hdim, hsound.shows_blanks _ hslots,
    hsound.settled.untouched _ fun key _ hkey => hsound.settled.dimensions_eq ▸ hslots key hkey,
    hvalues, hshown, Array.getElem?_replicate, Array.getElem?_replicate, if_pos harea,
    if_pos harea]
  exact ⟨rfl, rfl⟩

/-- **The row grid agrees with the values.** After any events there is one row per row of the
sheet, with its number from one in front and one entry per column behind. An entry is the text of
the stored value if some cell with a formula lies there: its shortest decimal, or the word for what
has none. Otherwise the entry is empty and the stored value is zero. Whatever is evaluated over the
values, in whatever order, reads and writes only indices that are in range for the values and for
the row grid. -/
theorem rows_agree_with_values (hnew : Engine.new d = .ok fresh) (events : List Event) :
    let e := fresh.after events
    e.snapshot.rows.length = d.height ∧
    (∀ r < d.height, ∃ row, e.snapshot.rows[r]? = some row ∧ row.length = d.width + 1 ∧
      row[0]? = some (r + 1).repr ∧ ∀ c < d.width,
        ((∃ key ∈ e.graph.table, Key.position? key = some ⟨c, r⟩) →
          ∃ value, e.values.cells[r * d.width + c]? = some value ∧
            row[c + 1]? = some (cellText value) ∧ Shows value (cellText value)) ∧
        ((∀ key ∈ e.graph.table, Key.position? key ≠ some ⟨c, r⟩) →
          e.values.cells[r * d.width + c]? = some 0 ∧ row[c + 1]? = some "")) ∧
    ∀ (g : Graph) (keys : List String),
      (∀ key i, (g.evaluateAll e.values keys).2.index? key = some i → e.InRange i) ∧
      ∀ evaluation ∈ (g.evaluateAll e.values keys).1, ∀ i,
        evaluation.write = .stored i → e.InRange i := by
  intro e
  have hsound : Sound fresh e := sound_after hnew events
  have hdim : e.dimensions = d := hsound.dimensions_eq hnew
  refine ⟨?_, fun r hr => ?_, fun g keys => ⟨fun key i hi => ?_, fun evaluation hmem i hi => ?_⟩⟩
  · rw [← hdim, snapshot, length_labelledRows, e.dimensions_eq]
    rfl
  · rw [← hdim] at hr ⊢
    obtain ⟨hrows, hlength⟩ := e.getElem?_rows hr
    refine ⟨_, hrows, by rw [List.length_cons, hlength], rfl, fun c hc => ⟨?_, fun hfree => ?_⟩⟩
    · rintro ⟨key, hkey, hposition⟩
      obtain ⟨value, hvalue, hshown⟩ := hsound.shown_of_position? hr hc hkey hposition
      exact ⟨value, hvalue, hshown, shows_cellText value⟩
    · exact hsound.blank_of_forall_ne hnew hr hc hfree
  · rw [Grid.index?_eq_slot?, Graph.dimensions_evaluateAll] at hi
    exact inRange_of_slot? hi
  · exact inRange_of_slot? (Graph.slot?_of_write_evaluateAll hmem hi)

/-- Where two spellings of one cell have formulas, the first column shows the value that is stored
for both, and the second one is blank. -/
theorem row_of_two_spellings :
    let d : Dimensions := ⟨2, 1, by decide, by decide⟩
    let events : List Event := [.edit (.ofList [("A1", "1"), ("AA1", "2")]), .edit ∅]
    ∃ fresh row value, Engine.new d = .ok fresh ∧
      (fresh.after events).snapshot.rows = [row] ∧ row.length = 3 ∧ row[0]? = some "1" ∧
      (fresh.after events).values.cells[0]? = some value ∧ row[1]? = some (cellText value) ∧
      (fresh.after events).values.cells[1]? = some 0 ∧ row[2]? = some "" := by
  intro d events
  obtain ⟨fresh, hnew⟩ := exists_new (d := d) (by decide)
  let batch : Batch := .ofList [("A1", "1"), ("AA1", "2")]
  have htexts : (fresh.after events).texts = batch :=
    texts_submit_new hnew (by decide +kernel)
      (Edges.acyclic_of_rank (fun _ => 0) (by decide +kernel))
  have htable : (fresh.after events).graph.table = (Graph.ofFormulas batch).table :=
    (sound_after hnew events).faithful.table_eq.trans (by rw [htexts])
  -- both spellings lie in the first column, and no key in the second
  obtain ⟨hlength, hrows, -⟩ := rows_agree_with_values hnew events
  obtain ⟨row, hrow, hwidth, hnumber, hcells⟩ := hrows 0 (by decide)
  obtain ⟨value, hvalue, hshown, -⟩ := (hcells 0 (by decide)).1
    ⟨"AA1", htable ▸ (by decide +kernel), by decide +kernel⟩
  obtain ⟨hzero, hblank⟩ := (hcells 1 (by decide)).2 fun key hkey => by
    have hfree : ∀ key ∈ (Graph.ofFormulas batch).table.keys,
        Key.position? key ≠ some ⟨1, 0⟩ := by decide +kernel
    rw [htable] at hkey
    exact hfree key (Std.ExtTreeMap.mem_keys.2 hkey)
  refine ⟨fresh, row, value, hnew, ?_, hwidth, hnumber, hvalue, hshown, hzero, hblank⟩
  obtain ⟨only, honly⟩ := List.length_eq_one_iff.1 hlength
  rw [honly] at hrow ⊢
  exact congrArg (fun row => [row]) (Option.some.inj hrow)

end Engine

end Spreadsheet
