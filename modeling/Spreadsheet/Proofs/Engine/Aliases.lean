import Spreadsheet.Proofs.Cell.Addressing
import Spreadsheet.Proofs.Cell.Spelling
import Spreadsheet.Proofs.Engine.Events

/-! # Which shared slots are reported
Different spellings of a position share a slot, so cells with a formula can overwrite each other's
values. The report of an accepted batch names each of its cells that lies in the grid and has two or
more letters, together with the canonical key of its position. So of two cells in one slot at least
one was named when it came in, unless they are one key with different leading zeros, which have no
alias. -/

namespace Spreadsheet

namespace Engine

variable {fresh e edited : Engine} {batch : Batch} {batches : List Batch} {report : Report}
  {d : Dimensions} {s : Schedule} {key other : String}

/-! ## What a report names -/

/-- A report names a key with its alias exactly when the key is one of the batch and lies in the
grid. -/
theorem Accepts.columnAliased_mem_iff (h : e.Accepts batch s report edited) :
    .columnAliased key other ∈ report.diagnostics ↔
      key ∈ batch ∧ (e.values.index? key).isSome ∧ Key.alias? key = some other := by
  have hevaluations : Diagnostic.columnAliased key other ∉
      (edited.graph.evaluateAll e.values s.order).1.filterMap outOfBounds? := by
    intro hmem
    obtain ⟨evaluation, -, heq⟩ := List.mem_filterMap.1 hmem
    unfold outOfBounds? at heq
    split at heq
    · exact nomatch Option.some.inj heq
    · exact nomatch heq
  have hkey : ∀ cell text, Diagnostic.columnAliased key other ∈ e.keyDiagnostics cell text ↔
      cell = key ∧ (e.values.index? cell).isSome ∧ Key.alias? cell = some other := by
    intro cell text
    have hunknown : Diagnostic.columnAliased key other ∉
        (if (Formula.parse text).hasUnknown then [.unknownOperand cell text] else []) := by
      split <;> simp
    rw [keyDiagnostics, List.mem_append, or_iff_right hunknown]
    cases e.values.index? cell <;> cases Key.alias? cell <;> simp [eq_comm]
  rw [h.diagnostics_eq, List.mem_append, or_iff_left hevaluations, List.mem_flatMap]
  simp only [Prod.exists, hkey, Std.ExtTreeMap.mem_toList_iff_getElem?_eq_some, KeyMap.mem_iff]
  constructor
  · rintro ⟨cell, text, htext, rfl, hslot, halias⟩
    exact ⟨⟨text, htext⟩, hslot, halias⟩
  · rintro ⟨⟨text, htext⟩, hslot, halias⟩
    exact ⟨key, text, htext, rfl, hslot, halias⟩

/-! ## The reports of a run -/

/-- Those of some batches that are accepted, each with its report. -/
def accepted (e : Engine) : List Batch → List (Batch × Report)
  | [] => []
  | batch :: later =>
    match e.apply batch with
    | .ok (report, edited) => (batch, report) :: edited.accepted later
    | .error _ => e.accepted later

theorem accepted_cons_of_apply_eq_ok (h : e.apply batch = .ok (report, edited)) :
    e.accepted (batch :: batches) = (batch, report) :: edited.accepted batches := by
  rw [accepted, h]

theorem accepted_cons_of_apply_eq_error {cause : SheetError} (h : e.apply batch = .error cause) :
    e.accepted (batch :: batches) = e.accepted batches := by
  rw [accepted, h]

/-- Every text of an engine was there at first or came in with an accepted batch. -/
theorem mem_texts_submitAll (h : key ∈ (e.submitAll batches).texts) :
    key ∈ e.texts ∨ ∃ entry ∈ e.accepted batches, key ∈ entry.1 := by
  induction batches generalizing e with
  | nil => exact .inl h
  | cons batch later ih =>
    have hlater := ih h
    cases happly : e.apply batch with
    | error cause =>
      rw [submit_of_apply_eq_error happly] at hlater
      rwa [accepted_cons_of_apply_eq_error happly]
    | ok outcome =>
      obtain ⟨report, edited⟩ := outcome
      obtain ⟨s, haccepts⟩ := accepts_of_apply happly
      rw [submit_eq_of_apply happly, haccepts.texts_eq, Std.ExtTreeMap.mem_union_iff] at hlater
      rw [accepted_cons_of_apply_eq_ok happly]
      rcases hlater with (hold | hbatch) | ⟨entry, hentry, hkey⟩
      · exact .inl hold
      · exact .inr ⟨_, List.mem_cons_self, hbatch⟩
      · exact .inr ⟨entry, List.mem_cons_of_mem _ hentry, hkey⟩

/-- Each accepted batch of a run was accepted by a sound engine. -/
theorem Sound.exists_accepts_of_mem_accepted (hsound : Sound fresh e) {entry : Batch × Report}
    (h : entry ∈ e.accepted batches) :
    ∃ before s after, Sound fresh before ∧ before.Accepts entry.1 s entry.2 after := by
  induction batches generalizing e with
  | nil => exact absurd h List.not_mem_nil
  | cons batch later ih =>
    cases happly : e.apply batch with
    | error cause =>
      rw [accepted_cons_of_apply_eq_error happly] at h
      exact ih hsound h
    | ok outcome =>
      obtain ⟨report, edited⟩ := outcome
      obtain ⟨s, haccepts⟩ := accepts_of_apply happly
      rw [accepted_cons_of_apply_eq_ok happly] at h
      rcases List.mem_cons.1 h with rfl | h
      · exact ⟨e, s, edited, hsound, haccepts⟩
      · exact ih (hsound.of_accepts haccepts) h

/-- Some accepted batch has the key, and its report names the key as sharing its slot with the
canonical key of its position. -/
def NamesAlias (log : List (Batch × Report)) (key : String) : Prop :=
  ∃ p canonical, Key.position? key = some p ∧ Key.ofPosition? p = some canonical ∧
    ∃ entry ∈ log, key ∈ entry.1 ∧ .columnAliased key canonical ∈ entry.2.diagnostics

/-- **A cell of two or more letters is named** by the report of an accepted batch that has it. -/
theorem namesAlias_of_mem_table (hnew : Engine.new d = .ok fresh)
    (hkey : key ∈ (fresh.submitAll batches).graph.table) (hslot : (d.slot? key).isSome)
    (hletters : ¬ Key.HasOneLetter key) : NamesAlias (fresh.accepted batches) key := by
  have hsound : Sound fresh (fresh.submitAll batches) := sound_submitAll hnew batches
  have htext : key ∈ (fresh.submitAll batches).texts := by
    rw [hsound.faithful.table_eq] at hkey
    exact Std.ExtTreeMap.mem_map.1 hkey
  obtain ⟨i, hi⟩ := Option.isSome_iff_exists.1 hslot
  obtain ⟨p, hposition, -⟩ := Option.bind_eq_some_iff.1 hi
  obtain ⟨canonical, hcanonical⟩ := Key.exists_ofPosition?_of_position? hposition
  rcases mem_texts_submitAll htext with hold | ⟨entry, hentry, hbatch⟩
  · rw [(fields_of_new hnew).2.1] at hold
    exact absurd hold Std.ExtTreeMap.not_mem_empty
  · obtain ⟨before, s, after, hbefore, haccepts⟩ :=
      (sound_new hnew).exists_accepts_of_mem_accepted hentry
    refine ⟨p, canonical, hposition, hcanonical, entry, hentry, hbatch,
      haccepts.columnAliased_mem_iff.2 ⟨hbatch, ?_, ?_⟩⟩
    · rwa [Grid.index?_eq_slot?, hbefore.dimensions_eq hnew]
    · rw [Key.alias?_eq_ofPosition? hposition hletters, hcanonical]

/-- **Shared slots are reported, up to leading zeros.** After any batches, of two cells with a
formula in one slot at least one is named, by the report of an accepted batch that has it, as
sharing its slot with the canonical key of its position; or both have one letter and differ only by
leading zeros, which one of them has. For a key with a position is the canonical one exactly when it
has one letter and no leading zero; if it has one letter it has no alias, and otherwise its alias is
the canonical key. -/
theorem shared_slots_named_up_to_zeros (hnew : Engine.new d = .ok fresh) (batches : List Batch) :
    let e := fresh.submitAll batches
    (∀ key ∈ e.graph.table, ∀ other ∈ e.graph.table, key ≠ other → d.SameSlot key other →
      NamesAlias (fresh.accepted batches) key ∨ NamesAlias (fresh.accepted batches) other ∨
        (Key.HasOneLetter key ∧ Key.HasOneLetter other ∧ Key.SameButZeros key other ∧
          (Key.HasLeadingZero key ∨ Key.HasLeadingZero other))) ∧
    ∀ key p, Key.position? key = some p → ∃ canonical, Key.ofPosition? p = some canonical ∧
      (canonical = key ↔ Key.HasOneLetter key ∧ ¬ Key.HasLeadingZero key) ∧
      (Key.HasOneLetter key → Key.alias? key = none) ∧
      (¬ Key.HasOneLetter key → Key.alias? key = some canonical) := by
  intro e
  refine ⟨fun key hkey other hother hne hslot => ?_, fun key p hposition => ?_⟩
  · obtain ⟨i, hi, hi'⟩ := hslot
    by_cases hone : Key.HasOneLetter key
    · by_cases hone' : Key.HasOneLetter other
      · -- one slot is one position
        obtain ⟨p, hp, hindex⟩ := Option.bind_eq_some_iff.1 hi
        obtain ⟨p', hp', hindex'⟩ := Option.bind_eq_some_iff.1 hi'
        obtain rfl : p' = p := by
          rw [Dimensions.position_eq_of_index? hindex, Dimensions.position_eq_of_index? hindex']
        refine .inr (.inr ⟨hone, hone', Key.sameButZeros_of_position? hp hp' hone hone', ?_⟩)
        -- without leading zeros both keys would be the canonical one
        by_contra hzeros
        obtain ⟨hzero, hzero'⟩ := not_or.1 hzeros
        have hcanonical := (Key.ofPosition?_eq_self_iff hp).2 ⟨hone, hzero⟩
        have hcanonical' := (Key.ofPosition?_eq_self_iff hp').2 ⟨hone', hzero'⟩
        exact hne (Option.some.inj (hcanonical.symm.trans hcanonical'))
      · exact .inr (.inl (namesAlias_of_mem_table hnew hother (hi' ▸ rfl) hone'))
    · exact .inl (namesAlias_of_mem_table hnew hkey (hi ▸ rfl) hone)
  · obtain ⟨canonical, hcanonical⟩ := Key.exists_ofPosition?_of_position? hposition
    refine ⟨canonical, hcanonical, ?_, Key.alias?_of_hasOneLetter, fun hletters => ?_⟩
    · rw [← Key.ofPosition?_eq_self_iff hposition, hcanonical, Option.some.injEq]
    · rw [Key.alias?_eq_ofPosition? hposition hletters, hcanonical]

/-- Of two spellings of the first cell the one with two letters is named. -/
theorem two_letter_spelling_named :
    let d : Dimensions := ⟨1, 1, by decide, by decide⟩
    let batches : List Batch := [.ofList [("A1", "1")], .ofList [("AB1", "2")]]
    ∃ fresh, Engine.new d = .ok fresh ∧ "A1" ≠ "AB1" ∧ d.SameSlot "A1" "AB1" ∧
      "A1" ∈ (fresh.submitAll batches).graph.table ∧
      "AB1" ∈ (fresh.submitAll batches).graph.table ∧
      NamesAlias (fresh.accepted batches) "AB1" ∧ Key.alias? "AB1" = some "A1" := by
  intro d batches
  obtain ⟨fresh, hnew⟩ := exists_new (d := d) (by decide)
  have hsound : Sound fresh (fresh.submitAll batches) := sound_submitAll hnew batches
  have hfirst : (fresh.submit (.ofList [("A1", "1")])).texts = .ofList [("A1", "1")] :=
    texts_submit_new hnew (by decide +kernel)
      (Edges.acyclic_of_rank (fun _ => 0) (by decide +kernel))
  have htexts : (fresh.submitAll batches).texts =
      .ofList [("A1", "1")] ∪ .ofList [("AB1", "2")] := by
    change ((fresh.submit (.ofList [("A1", "1")])).submit (.ofList [("AB1", "2")])).texts = _
    rw [((sound_new hnew).submit _).texts_submit (by decide +kernel), hfirst]
    rw [hfirst]
    exact Edges.acyclic_of_rank (fun _ => 0) (by decide +kernel)
  have htable := hsound.table_of_texts htexts
  have hkey : "A1" ∈ (fresh.submitAll batches).graph.table := htable ▸ (by decide +kernel)
  have hother : "AB1" ∈ (fresh.submitAll batches).graph.table := htable ▸ (by decide +kernel)
  have hslot : d.SameSlot "A1" "AB1" := by decide +kernel
  obtain ⟨hnamed, -⟩ := shared_slots_named_up_to_zeros hnew batches
  refine ⟨fresh, hnew, by decide, hslot, hkey, hother, ?_, by decide +kernel⟩
  rcases hnamed "A1" hkey "AB1" hother (by decide) hslot with hkeyNamed | hotherNamed | hzeros
  · -- a key of one letter has no alias to be named with
    obtain ⟨-, canonical, -, -, entry, hentry, -, hmem⟩ := hkeyNamed
    obtain ⟨before, s, after, -, haccepts⟩ :=
      (sound_new hnew).exists_accepts_of_mem_accepted hentry
    have halias := (haccepts.columnAliased_mem_iff.1 hmem).2.2
    rw [show Key.alias? "A1" = none by decide +kernel] at halias
    exact nomatch halias
  · exact hotherNamed
  · have halias := Key.alias?_of_hasOneLetter hzeros.2.1
    rw [show Key.alias? "AB1" = some "A1" by decide +kernel] at halias
    exact nomatch halias

/-- **A spelling with a leading zero is not named**: the batch gives `A1` and `A01` different
numbers, both go to the first slot, and the report says nothing about it. -/
theorem zero_padded_spelling_not_named :
    let d : Dimensions := ⟨1, 1, by decide, by decide⟩
    let batch : Batch := .ofList [("A01", "2"), ("A1", "1")]
    ∃ fresh report edited, Engine.new d = .ok fresh ∧ fresh.apply batch = .ok (report, edited) ∧
      "A01" ≠ "A1" ∧ d.SameSlot "A01" "A1" ∧ "A01" ∈ edited.graph.table ∧
      "A1" ∈ edited.graph.table ∧
      (∀ key other, .columnAliased key other ∉ report.diagnostics) ∧
      ∃ p, Key.position? "A01" = some p ∧ Key.ofPosition? p ≠ some "A01" ∧
        Key.alias? "A01" = none := by
  intro d batch
  obtain ⟨fresh, hnew⟩ := exists_new (d := d) (by decide)
  have hsound : Sound fresh fresh := sound_new hnew
  obtain ⟨report, edited, happly⟩ : ∃ report edited, fresh.apply batch = .ok (report, edited) := by
    refine hsound.exists_apply (by decide +kernel) ?_
    rw [union_texts_of_new hnew]
    exact Edges.acyclic_of_rank (fun _ => 0) (by decide +kernel)
  obtain ⟨s, h⟩ := accepts_of_apply happly
  have htable : edited.graph.table = (Graph.ofFormulas batch).table :=
    (hsound.of_accepts h).table_of_texts (by rw [h.texts_eq, union_texts_of_new hnew])
  refine ⟨fresh, report, edited, hnew, happly, by decide, by decide +kernel,
    htable ▸ (by decide +kernel), htable ▸ (by decide +kernel), fun key other hmem => ?_,
    ⟨0, 0⟩, by decide +kernel, by decide +kernel, by decide +kernel⟩
  -- neither key of the batch has an alias
  obtain ⟨hbatch, -, halias⟩ := h.columnAliased_mem_iff.1 hmem
  have hnone : ∀ key ∈ batch.keys, Key.alias? key = none := by decide +kernel
  rw [hnone key (Std.ExtTreeMap.mem_keys.2 hbatch)] at halias
  exact nomatch halias

end Engine

end Spreadsheet
