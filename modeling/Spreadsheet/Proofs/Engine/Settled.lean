import Spreadsheet.Proofs.Engine.Run

/-! # No stale cells
Where no cell with a formula shares its slot with another one or with another key that a formula
names, a sound engine holds for each cell with a formula the value of the formula over the grid as
it is, and an accepted batch reports just these values. For a formula that names no cell it is
enough that no other cell has its slot. -/

namespace Spreadsheet

/-- A cell that is evaluated, and always to the same value, has that value in the report. -/
theorem Report.valueOf?_eq {r : Report} {key : String} {value : Float}
    (hkey : key ∈ r.evaluated.map (·.1)) (h : ∀ x, (key, x) ∈ r.evaluated → x = value) :
    r.valueOf? key = some value := by
  rw [valueOf?]
  cases hfind : r.evaluated.find? (·.1 == key) with
  | none =>
    obtain ⟨entry, hentry, rfl⟩ := List.mem_map.1 hkey
    exact absurd (beq_self_eq_true entry.1) (List.find?_eq_none.1 hfind entry hentry)
  | some entry =>
    obtain rfl : entry.1 = key := eq_of_beq (List.find?_some hfind :)
    rw [Option.map_some, h entry.2 (List.mem_of_find?_eq_some hfind)]

namespace Engine

variable {fresh e edited : Engine} {batch : Batch} {report : Report} {d : Dimensions}

/-- In a sound engine whose cells are separate, what the grid holds for a cell with a formula is
the value of the formula over the grid. -/
theorem Sound.get?_eq {key : String} {value : Float} (hsound : Sound fresh e)
    (hseparate : e.graph.Separate e.values.dimensions)
    (hvalue : e.graph.compute? e.values key = some value)
    (hslot : (e.values.index? key).isSome) : e.values.get? key = some (narrow value) := by
  obtain ⟨formula, hformula, rfl⟩ := Option.map_eq_some_iff.1 hvalue
  obtain ⟨i, hi⟩ := Option.isSome_iff_exists.1 hslot
  rw [Grid.index?_eq_slot?] at hi
  rw [Grid.get?_eq, hi, Option.bind_some]
  rw [hsound.settled.dimensions_eq] at hseparate
  exact hsound.settled.settled key trivial
    (hseparate.undisturbed (Graph.mem_table_of_eq_some hformula)) formula hformula i hi

/-- What an accepted batch reports for an undisturbed cell is the value of its formula over the
grid it leaves. -/
theorem Sound.evaluated_eq_of_undisturbed {s : Schedule} {key : String} {value : Float}
    (hsound : Sound fresh e) (h : e.Accepts batch s report edited)
    (hund : edited.graph.Undisturbed e.values.dimensions key)
    (hmem : (key, value) ∈ report.evaluated) :
    edited.graph.compute? edited.values key = some value := by
  rw [h.evaluated_eq] at hmem
  obtain ⟨evaluation, hevaluation, heq⟩ := List.mem_map.1 hmem
  obtain ⟨rfl, rfl⟩ := Prod.mk.inj heq
  have horder : evaluation.key ∈ s.order := by
    rw [← Graph.map_key_evaluateAll edited.graph e.values s.order]
    exact List.mem_map_of_mem hevaluation
  obtain ⟨formula, hformula⟩ := KeyMap.mem_iff.1 (hsound.mem_table_of_mem_order h horder)
  have hsettles := Graph.evaluateAll_settles
    (Graph.nodup_order h.schedule_eq) (hsound.evaluatesInputsFirst h) horder hund hformula
  rw [Graph.compute?, hformula, Option.map_some, hsettles.2 evaluation hevaluation rfl,
    h.values_eq]

/-- An accepted batch that leaves the cells separate reports the values of the formulas over the
grid it leaves. -/
theorem Sound.evaluated_eq {s : Schedule} {key : String} {value : Float} (hsound : Sound fresh e)
    (h : e.Accepts batch s report edited) (hseparate : edited.graph.Separate e.values.dimensions)
    (hmem : (key, value) ∈ report.evaluated) :
    edited.graph.compute? edited.values key = some value := by
  have horder : key ∈ s.order := h.map_fst_evaluated ▸ List.mem_map_of_mem hmem
  exact hsound.evaluated_eq_of_undisturbed h
    (hseparate.undisturbed (hsound.mem_table_of_mem_order h horder)) hmem

section References

variable {text key : String} {i : Nat}

/-- A cell whose formula names no cell and whose slot no other cell has is undisturbed. -/
theorem Sound.undisturbed_of_references_eq_nil (hsound : Sound fresh e)
    (htext : e.texts[key]? = some text) (hnone : (Formula.parse text).references = [])
    (hslot : e.values.dimensions.slot? key = some i)
    (hfree : ∀ other ∈ e.texts, e.values.dimensions.slot? other = some i → other = key) :
    e.graph.Undisturbed e.values.dimensions key := by
  have htable : e.graph.table = (Graph.ofFormulas e.texts).table := hsound.faithful.table_eq
  constructor
  · rintro writer hwriter ⟨j, hwriterslot, hkeyslot⟩
    rw [hslot] at hkeyslot
    obtain rfl := Option.some.inj hkeyslot
    rw [htable, Graph.mem_table_ofFormulas] at hwriter
    exact hfree writer hwriter hwriterslot
  · rintro source ⟨formula, hformula, hsource⟩
    rw [htable, Graph.getElem?_table_ofFormulas, htext, Option.map_some] at hformula
    obtain rfl := Option.some.inj hformula
    rw [hnone] at hsource
    exact absurd hsource List.not_mem_nil

/-- **A formula without references has its own value.** An accepted batch reports for a cell with
such a formula, whose slot no other cell has, the value of the formula, and the slot holds it
narrowed. -/
theorem Sound.value_of_references_eq_nil {s : Schedule} {value : Float} (hsound : Sound fresh e)
    (h : e.Accepts batch s report edited) (htext : batch[key]? = some text)
    (hnone : (Formula.parse text).references = [])
    (hvalue : ∀ g, (Formula.parse text).eval g = value)
    (hslot : e.values.dimensions.slot? key = some i)
    (hfree : ∀ other ∈ edited.texts, e.values.dimensions.slot? other = some i → other = key) :
    report.valueOf? key = some value ∧ edited.values.cells[i]? = some (narrow value) := by
  have hedited := hsound.of_accepts h
  have hdim := h.dimensions_eq
  have htexts : edited.texts[key]? = some text := by
    rw [h.texts_eq, Std.ExtTreeMap.getElem?_union, htext, Option.some_or]
  have hund : edited.graph.Undisturbed e.values.dimensions key :=
    hdim ▸ hedited.undisturbed_of_references_eq_nil htexts hnone (hdim ▸ hslot) (hdim ▸ hfree)
  have hformula : edited.graph.table[key]? = some (Formula.parse text) := by
    rw [hedited.table_of_texts rfl, Graph.getElem?_table_ofFormulas, htexts, Option.map_some]
  constructor
  · refine Report.valueOf?_eq ?_ fun x hx => ?_
    · rw [h.map_fst_evaluated]
      refine (Graph.mem_order h.schedule_eq).2 ⟨key, ?_, .refl⟩
      exact Std.ExtTreeMap.mem_keys.2 (KeyMap.mem_iff.2 ⟨text, htext⟩)
    · have hcompute := hsound.evaluated_eq_of_undisturbed h hund hx
      rw [Graph.compute?, hformula, Option.map_some, hvalue] at hcompute
      exact (Option.some.inj hcompute).symm
  · rw [← hdim] at hund hslot
    have hcell := hedited.settled.settled key trivial (hedited.settled.dimensions_eq ▸ hund) _
      hformula i hslot
    rwa [hvalue] at hcell

end References

/-- **No edit leaves a cell stale.** After any batches, where no cell with a formula shares its slot
with another one or with another key that a formula names: each cell with a formula and a slot
holds the value of its formula over the grid as it is, narrowed. And an accepted batch after which
this is so reports for each evaluated cell, inside the grid or not, the value of its formula over
the grid that the batch leaves. -/
theorem values_settled_after_batches (hnew : Engine.new d = .ok fresh) (batches : List Batch) :
    let e := fresh.submitAll batches
    (e.graph.Separate d → ∀ key value, e.graph.compute? e.values key = some value →
      (e.values.index? key).isSome → e.values.get? key = some (narrow value)) ∧
    ∀ batch report edited, e.apply batch = .ok (report, edited) → edited.graph.Separate d →
      ∀ key value, (key, value) ∈ report.evaluated →
        edited.graph.compute? edited.values key = some value := by
  intro e
  have hsound : Sound fresh e := sound_submitAll hnew batches
  have hdim := hsound.dimensions_eq hnew
  refine ⟨fun hseparate key value => hsound.get?_eq (hdim ▸ hseparate), ?_⟩
  intro batch report edited happly hseparate key value hmem
  obtain ⟨s, h⟩ := accepts_of_apply happly
  exact hsound.evaluated_eq h (hdim ▸ hseparate) hmem

/-- A batch with a number and its successor leaves 2 for the successor, and changing the number
then reports the values that the formulas have. -/
theorem successor_settled_after_batch :
    let d : Dimensions := ⟨2, 1, by decide, by decide⟩
    let first : Batch := .ofList [("A1", "1"), ("B1", "A1 + 1")]
    let second : Batch := .ofList [("A1", "2")]
    ∃ fresh report edited, Engine.new d = .ok fresh ∧
      (fresh.submitAll [first]).graph.Separate d ∧
      (fresh.submitAll [first]).values.get? "B1" = some (narrow 2) ∧
      (fresh.submitAll [first]).apply second = .ok (report, edited) ∧
      edited.graph.Separate d ∧
      ∀ key value, (key, value) ∈ report.evaluated →
        edited.graph.compute? edited.values key = some value := by
  intro d first second
  obtain ⟨fresh, hnew⟩ := exists_new (d := d) (by decide)
  let rank (key : String) : Nat := if key = "A1" then 0 else 1
  obtain ⟨hvalues, hreports⟩ := values_settled_after_batches hnew [first]
  have hsound : Sound fresh (fresh.submitAll [first]) := sound_submitAll hnew [first]
  have hdim : (fresh.submitAll [first]).values.dimensions = d := hsound.dimensions_eq hnew
  have htexts : (fresh.submitAll [first]).texts = first :=
    texts_submit_new hnew (by decide +kernel) (Edges.acyclic_of_rank rank (by decide +kernel))
  have hseparate : (fresh.submitAll [first]).graph.Separate d := by
    refine hsound.separate ?_
    rw [htexts]
    decide +kernel
  have htable : (fresh.submitAll [first]).graph.table = (Graph.ofFormulas first).table :=
    hsound.faithful.table_eq.trans (by rw [htexts])
  have hslot : ∀ key, (d.slot? key).isSome → ((fresh.submitAll [first]).values.index? key).isSome :=
    fun key => by rw [Grid.index?_eq_slot?, hdim]; exact id
  have hnumber : (fresh.submitAll [first]).values.get? "A1" = some (narrow 1) := by
    refine hvalues hseparate "A1" 1 ?_ (hslot "A1" (by decide +kernel))
    rw [Graph.compute?, htable,
      show (Graph.ofFormulas first).table["A1"]? = some (.literal 1) by decide +kernel]
    rfl
  have hsuccessor : (fresh.submitAll [first]).values.get? "B1" = some (narrow 2) := by
    refine hvalues hseparate "B1" 2 ?_ (hslot "B1" (by decide +kernel))
    rw [Graph.compute?, htable, show (Graph.ofFormulas first).table["B1"]? =
      some (.operation .add (.reference "A1") (.literal 1)) by decide +kernel, Option.map_some,
      Formula.eval, Formula.eval, Formula.eval, hnumber]
    decide +kernel
  obtain ⟨report, edited, happly⟩ :
      ∃ report edited, (fresh.submitAll [first]).apply second = .ok (report, edited) := by
    refine hsound.exists_apply (by decide +kernel) ?_
    rw [htexts]
    exact Edges.acyclic_of_rank rank (by decide +kernel)
  obtain ⟨s, haccepts⟩ := accepts_of_apply happly
  have hedited : edited.graph.Separate d := by
    refine (hsound.of_accepts haccepts).separate ?_
    rw [haccepts.texts_eq, htexts]
    decide +kernel
  exact ⟨fresh, report, edited, hnew, hseparate, hsuccessor, happly, hedited,
    hreports second report edited happly hedited⟩

end Engine

end Spreadsheet
