import Spreadsheet.Proofs.Cell.Spelling
import Spreadsheet.Proofs.Engine.Reapplication
import Spreadsheet.Proofs.Formula.Faults

/-! # Complete diagnostics
A report says of each key of its batch, in ascending order, whether the formula has an unknown
operand and whether the key shares its slot with a shorter spelling, and after that, in order of
evaluation, which evaluated keys lie outside the grid. It says nothing else. Every evaluated key
has a formula, so its value either went to its slot, at its **turn**, or is reported as having
nowhere to go. -/

namespace Spreadsheet

namespace Key

variable {key : String} {p : Position}

/-- The key has two or more letters. -/
def HasMoreLetters (key : String) : Prop :=
  ∃ first second more digits, parts? key.toList = some (first :: second :: more, digits)

/-- A key with a position has one letter or more. -/
theorem hasMoreLetters_iff (hposition : position? key = some p) :
    HasMoreLetters key ↔ ¬ HasOneLetter key := by
  obtain ⟨first, more, digits, hparts, -⟩ := exists_parts?_of_position? hposition
  rw [HasMoreLetters, HasOneLetter, hparts]
  cases more <;> simp

theorem alias?_of_not_hasMoreLetters (h : ¬ HasMoreLetters key) : alias? key = none := by
  unfold alias?
  split
  · rename_i first second more digits hparts
    exact absurd ⟨first, second, more, digits, hparts⟩ h
  · rfl

/-- The alias of a key of two or more letters has one letter, no leading zero and the position of
the key. -/
theorem exists_alias? (hposition : position? key = some p) (h : HasMoreLetters key) :
    ∃ other, alias? key = some other ∧ HasOneLetter other ∧ ¬ HasLeadingZero other ∧
      position? other = some p := by
  obtain ⟨other, hother⟩ := exists_ofPosition?_of_position? hposition
  obtain ⟨_, _, _, -, hrow, -⟩ := exists_parts?_of_position? hposition
  have hsame := position?_of_ofPosition? (lt_of_row? hrow) hother
  obtain ⟨hone, hzero⟩ := (ofPosition?_eq_self_iff hsame).1 hother
  rw [alias?_eq_ofPosition? hposition ((hasMoreLetters_iff hposition).1 h)]
  exact ⟨other, hother, hone, hzero, hsame⟩

end Key

/-! ## One evaluation -/

namespace Graph

variable {g : Graph} {values : Grid Float32} {order : List String} {key : String} {value : Float}
  {i : Nat}

/-- A value with a slot is stored there. -/
theorem evaluate_of_slot?_eq_some (hvalue : g.compute? values key = some value)
    (hslot : values.dimensions.slot? key = some i) :
    g.evaluate values key = (⟨key, value, .stored i⟩, values.setIndex i (narrow value)) := by
  rw [← Grid.index?_eq_slot?] at hslot
  simp only [evaluate, hvalue, Grid.set, hslot]

/-- A value without a slot is not stored. -/
theorem evaluate_of_slot?_eq_none (hvalue : g.compute? values key = some value)
    (hslot : values.dimensions.slot? key = none) :
    g.evaluate values key = (⟨key, value, .outOfBounds⟩, values) := by
  rw [← Grid.index?_eq_slot?] at hslot
  simp only [evaluate, hvalue, Grid.set, hslot]

theorem compute?_of_mem_table (hkey : key ∈ g.table) (values : Grid Float32) :
    ∃ value, g.compute? values key = some value := by
  obtain ⟨formula, hformula⟩ := KeyMap.mem_iff.1 hkey
  exact ⟨_, by rw [compute?, hformula, Option.map_some]⟩

/-- The evaluation of a cell with a formula goes nowhere exactly when the cell has no slot. -/
theorem write_evaluate_eq_outOfBounds_iff (hkey : key ∈ g.table) :
    (g.evaluate values key).1.write = .outOfBounds ↔ values.dimensions.slot? key = none := by
  obtain ⟨value, hvalue⟩ := compute?_of_mem_table hkey values
  cases hslot : values.dimensions.slot? key with
  | none => rw [evaluate_of_slot?_eq_none hvalue hslot, iff_true_right rfl]
  | some i => simp [evaluate_of_slot?_eq_some hvalue hslot]

/-- The diagnostics of evaluations name the cells without a slot, in order. -/
theorem filterMap_outOfBounds?_evaluateAll (hkeys : ∀ key ∈ order, key ∈ g.table) :
    (g.evaluateAll values order).1.filterMap Engine.outOfBounds? =
      (order.filter fun key => (values.dimensions.slot? key).isNone).map .outOfBounds := by
  rw [Engine.filterMap_outOfBounds?, map_write_evaluateAll, List.filterMap_map,
    ← List.filterMap_eq_map, List.filterMap_filter]
  refine List.filterMap_congr fun key hkey => ?_
  simp [write_evaluate_eq_outOfBounds_iff (hkeys key hkey)]

/-- A cell is evaluated over what those before it leave. -/
theorem value_evaluate_of_evaluateAll_eq {before after : List (String × Float)}
    (h : (g.evaluateAll values order).1.map (fun e => (e.key, e.value)) =
      before ++ (key, value) :: after) :
    key ∈ order ∧
      (g.evaluate (g.evaluateAll values (before.map (·.1))).2 key).1.value = value := by
  have horder : order = before.map (·.1) ++ key :: after.map (·.1) := by
    have hkeys := congrArg (List.map Prod.fst) h
    rw [List.map_map, List.map_append, List.map_cons] at hkeys
    exact (map_key_evaluateAll g values order).symm.trans hkeys
  rw [horder, evaluateAll_append, evaluateAll_cons, List.map_append, List.map_cons] at h
  have hlength :
      ((g.evaluateAll values (before.map (·.1))).1.map fun e => (e.key, e.value)).length =
        before.length := by
    rw [List.length_map, ← List.length_map (·.key), map_key_evaluateAll, List.length_map]
  obtain ⟨-, htail⟩ := List.append_inj h hlength
  exact ⟨by simp [horder], (Prod.mk.inj (List.cons.inj htail).1).2⟩

end Graph

/-! ## The report -/

/-- What a batch brings up about one of its keys and the text of its formula: a note that an operand
is unknown, and a note that the key shares its slot with a key of one letter. Each is there exactly
if there is a reason for it. -/
structure Notes (d : Dimensions) (key text : String) (unknown shared : List Diagnostic) : Prop where
  /-- The formula of the text has an operand that is neither a cell key nor a number. -/
  unknown_eq : (∃ operand, .unknown operand ∈ (Formula.parse text).leaves) →
    unknown = [.unknownOperand key text]
  /-- All operands are cell keys and numbers. -/
  unknown_nil : (¬ ∃ operand, .unknown operand ∈ (Formula.parse text).leaves) → unknown = []
  /-- The key lies in the grid and has two or more letters. -/
  shared_eq : (d.slot? key).isSome → Key.HasMoreLetters key →
    ∃ other, shared = [.columnAliased key other] ∧ Key.HasOneLetter other ∧
      ¬ Key.HasLeadingZero other ∧ d.slot? other = d.slot? key
  /-- The key lies outside the grid or has one letter. -/
  shared_nil : ¬ ((d.slot? key).isSome ∧ Key.HasMoreLetters key) → shared = []

namespace Engine

variable {fresh e edited : Engine} {batch : Batch} {report : Report} {s : Schedule}
  {d : Dimensions}

/-- The diagnostics of a key of the batch are the notes that there is a reason for. -/
theorem notes_keyDiagnostics (e : Engine) (key text : String) :
    ∃ unknown shared, e.keyDiagnostics key text = unknown ++ shared ∧
      Notes e.dimensions key text unknown shared := by
  refine ⟨_, _, rfl, ?_, ?_, ?_, ?_⟩
  · intro hunknown
    rw [if_pos (Formula.hasUnknown_iff.2 hunknown)]
  · intro hknown
    rw [if_neg (Formula.hasUnknown_iff.not.2 hknown)]
  · intro hslot hletters
    obtain ⟨i, hi⟩ := Option.isSome_iff_exists.1 hslot
    obtain ⟨p, hposition, -⟩ := Option.bind_eq_some_iff.1 hi
    obtain ⟨other, halias, hone, hzero, hsame⟩ := Key.exists_alias? hposition hletters
    refine ⟨other, ?_, hone, hzero, by rw [Dimensions.slot?, Dimensions.slot?, hsame, hposition]⟩
    have hindex : e.values.index? key = some i := hi
    rw [hindex, halias]
  · intro hnot
    have hindex : e.values.index? key = e.dimensions.slot? key := rfl
    rw [hindex]
    cases hslot : e.dimensions.slot? key with
    | none => rfl
    | some i =>
      have hletters : ¬ Key.HasMoreLetters key := fun h => hnot ⟨by rw [hslot]; rfl, h⟩
      rw [Key.alias?_of_not_hasMoreLetters hletters]

/-- A report has the notes on the keys of the batch and then the evaluated keys without a slot. -/
theorem Sound.diagnostics_eq (hsound : Sound fresh e) (h : e.Accepts batch s report edited) :
    report.diagnostics =
      batch.toList.flatMap (fun (key, text) => e.keyDiagnostics key text) ++
        ((report.evaluated.map (·.1)).filter fun key => (e.dimensions.slot? key).isNone).map
          .outOfBounds := by
  rw [h.diagnostics_eq, h.map_fst_evaluated, Graph.filterMap_outOfBounds?_evaluateAll fun key =>
    hsound.mem_table_of_mem_order h]
  rfl

/-- What becomes of an evaluated cell at its turn: its value goes to its slot, or it has none and
is reported. -/
theorem Sound.turn (hsound : Sound fresh e) (h : e.Accepts batch s report edited)
    {before after : List (String × Float)} {key : String} {value : Float}
    (hsplit : report.evaluated = before ++ (key, value) :: after) :
    let turn := (edited.graph.evaluateAll e.values (before.map (·.1))).2
    edited.graph.compute? turn key = some value ∧
      ((∃ i written, e.dimensions.slot? key = some i ∧
          edited.graph.evaluate turn key = (⟨key, value, .stored i⟩, written) ∧
          written.cells[i]? = some (narrow value)) ∨
        (e.dimensions.slot? key = none ∧
          edited.graph.evaluate turn key = (⟨key, value, .outOfBounds⟩, turn) ∧
          .outOfBounds key ∈ report.diagnostics)) := by
  intro turn
  rw [h.evaluated_eq] at hsplit
  obtain ⟨horder, hvalue⟩ := Graph.value_evaluate_of_evaluateAll_eq hsplit
  have hdim : turn.dimensions = e.dimensions := Graph.dimensions_evaluateAll _ _ _
  obtain ⟨computed, hcomputed⟩ :=
    Graph.compute?_of_mem_table (hsound.mem_table_of_mem_order h horder) turn
  obtain rfl : computed = value := by
    cases hslot : turn.dimensions.slot? key with
    | none => rwa [Graph.evaluate_of_slot?_eq_none hcomputed hslot] at hvalue
    | some i => rwa [Graph.evaluate_of_slot?_eq_some hcomputed hslot] at hvalue
  refine ⟨hcomputed, ?_⟩
  rw [← hdim]
  cases hslot : turn.dimensions.slot? key with
  | none =>
    refine .inr ⟨rfl, Graph.evaluate_of_slot?_eq_none hcomputed hslot, ?_⟩
    rw [hdim] at hslot
    have houtside : key ∈ (report.evaluated.map (·.1)).filter fun key =>
        (e.dimensions.slot? key).isNone := by
      rw [h.map_fst_evaluated, List.mem_filter, hslot]
      exact ⟨horder, rfl⟩
    rw [hsound.diagnostics_eq h]
    exact List.mem_append_right _ (List.mem_map_of_mem houtside)
  | some i =>
    refine .inl ⟨i, _, rfl, Graph.evaluate_of_slot?_eq_some hcomputed hslot, ?_⟩
    rw [Grid.cells_setIndex, if_pos rfl, if_pos (Grid.index?_lt_size hslot)]

/-- **Diagnostics are complete and exact.** After any events, an accepted batch reports, key by key
in ascending order, the notes that there is a reason for, and then the evaluated keys outside the
grid in order of evaluation, each once. Every evaluated key has a formula, whose value over the grid
of its turn is the value reported; it goes to the slot of the key, or the key has none and is
reported. The turns in a row lead to the values that the batch leaves. -/
theorem diagnostics_complete_and_exact (hnew : Engine.new d = .ok fresh) (events : List Event)
    (happly : (fresh.after events).apply batch = .ok (report, edited)) :
    let e := fresh.after events
    let evaluated := report.evaluated.map (·.1)
    (batch.toList.map (·.1)).Pairwise (· < ·) ∧
    evaluated.Nodup ∧
    report.diagnostics =
      batch.toList.flatMap (fun (key, text) => e.keyDiagnostics key text) ++
        (evaluated.filter fun key => (d.slot? key).isNone).map .outOfBounds ∧
    (∀ key text, ∃ unknown shared, e.keyDiagnostics key text = unknown ++ shared ∧
      Notes d key text unknown shared) ∧
    edited.values = (edited.graph.evaluateAll e.values evaluated).2 ∧
    ∀ before key value after, report.evaluated = before ++ (key, value) :: after →
      let turn := (edited.graph.evaluateAll e.values (before.map (·.1))).2
      edited.graph.compute? turn key = some value ∧
        ((∃ i written, d.slot? key = some i ∧
            edited.graph.evaluate turn key = (⟨key, value, .stored i⟩, written) ∧
            written.cells[i]? = some (narrow value)) ∨
          (d.slot? key = none ∧
            edited.graph.evaluate turn key = (⟨key, value, .outOfBounds⟩, turn) ∧
            .outOfBounds key ∈ report.diagnostics)) := by
  intro e evaluated
  have hsound : Sound fresh e := sound_after hnew events
  obtain rfl : e.dimensions = d := hsound.dimensions_eq hnew
  obtain ⟨s, h⟩ := accepts_of_apply happly
  have hevaluated : evaluated = s.order := h.map_fst_evaluated
  refine ⟨?_, ?_, hsound.diagnostics_eq h, e.notes_keyDiagnostics, ?_,
    fun before key value after => hsound.turn h⟩
  · rw [Std.ExtTreeMap.map_fst_toList_eq_keys]
    exact KeyMap.ascending_keys batch
  · rw [hevaluated]
    exact Graph.nodup_order h.schedule_eq
  · rw [hevaluated]
    exact h.values_eq

/-- In a sheet of one cell, a key of two letters with an unknown operand has both notes, and a key
outside the sheet is reported after it. -/
theorem diagnostics_of_two_keys :
    let d : Dimensions := ⟨1, 1, by decide, by decide⟩
    let batch : Batch := .ofList [("AA1", "oops"), ("B1", "7")]
    ∃ fresh report edited, Engine.new d = .ok fresh ∧
      (fresh.after []).apply batch = .ok (report, edited) ∧
      report.diagnostics =
        [.unknownOperand "AA1" "oops", .columnAliased "AA1" "A1", .outOfBounds "B1"] := by
  intro d batch
  obtain ⟨fresh, hnew⟩ := exists_new (d := d) (by decide)
  have hsound : Sound fresh fresh := sound_new hnew
  obtain ⟨hdim, -, hempty⟩ := fields_of_new hnew
  obtain ⟨report, edited, happly⟩ : ∃ report edited, fresh.apply batch = .ok (report, edited) := by
    refine hsound.exists_apply (by decide +kernel) ?_
    rw [union_texts_of_new hnew]
    exact Edges.acyclic_of_rank (fun _ => 0) (by decide +kernel)
  obtain ⟨s, h⟩ := accepts_of_apply happly
  -- nothing reads either key, so they are evaluated as they are listed
  have horder : s.order = ["AA1", "B1"] := by
    have hschedule := h.schedule_eq
    rw [Graph.eq_overlay_of_merge h.merge_eq, hempty,
      show batch.keys = ["AA1", "B1"] by decide +kernel,
      Graph.schedule_of_targets_eq_nil (by decide) (by decide) (by decide +kernel)] at hschedule
    rw [← Except.ok.inj hschedule]
    rfl
  have hnotes : batch.toList.flatMap (fun (key, text) => fresh.keyDiagnostics key text) =
      [.unknownOperand "AA1" "oops", .columnAliased "AA1" "A1"] := by
    simp only [keyDiagnostics, Grid.index?_eq_slot?, hdim]
    decide +kernel
  obtain ⟨-, -, hdiagnostics, -⟩ := diagnostics_complete_and_exact hnew [] happly
  refine ⟨fresh, report, edited, hnew, happly, ?_⟩
  rw [hdiagnostics, h.map_fst_evaluated, horder, after_nil, hnotes]
  decide +kernel

end Engine

end Spreadsheet
