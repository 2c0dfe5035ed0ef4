import Spreadsheet.Proofs.Recalculation.Refusal
import Spreadsheet.Proofs.Recalculation.Relaxation
import Spreadsheet.Proofs.Recalculation.Repeated

/-! # Any order of evaluation
The cells that a change affects may have their turns in any order in which each of them comes after
all affected cells that it reads. Where cells are separate there is one settled outcome, so each
such **order of evaluation** ends with the grid of a recalculation: a cell with a formula has its
value over that grid, and a key without one has what the grid held for it at first. Only a root
without a formula that shares the slot of an affected cell can have one value or another, as its
turn is before or after the turn of that cell. A recalculation gives such a root its turn in the
first layer, and that layer is a matter of the roots. So neither the order in which dependents are
listed nor the topological order along which depths are found shows in what a recalculation
returns. -/

namespace Spreadsheet

/-! ## The first layer -/

namespace Edges

variable {edges other : Edges} {keys : List String} {layers : List (List String)}

/-- The first layer of what is reached has the roots that nothing feeds, in their order: all other
keys come up as targets. -/
theorem ready_reachable (edges : Edges) (roots : List String) :
    edges.ready (edges.reachable roots) =
      roots.eraseDups.filter (· ∉ edges.fed (edges.reachable roots)) := by
  have hfed : ∀ key ∈ (edges.reachable roots).flatMap edges.targets,
      key ∈ edges.fed (edges.reachable roots) := by
    intro key hkey
    exact mem_fed.2 (List.mem_flatMap.1 hkey)
  rw [ready]
  generalize edges.fed (edges.reachable roots) = fed at hfed
  rw [reachable_eq_eraseDups, List.eraseDups_append, List.filter_append]
  refine List.append_right_eq_self.2 (List.filter_eq_nil_iff.2 fun key hkey => ?_)
  have htarget := List.mem_of_mem_filter (List.mem_eraseDups.1 hkey)
  simpa using hfed key htarget

section congr

variable (h : ∀ source target, edges.Leads source target ↔ other.Leads source target)
include h

theorem leads_eq : edges.Leads = other.Leads := by
  funext source target
  exact propext (h source target)

/-- Whether a key is on a cycle does not depend on the order of the lists. -/
theorem onCycle_congr (key : String) : edges.OnCycle key ↔ other.OnCycle key := by
  rw [OnCycle, OnCycle, leads_eq h]

/-- What is reached does not depend on the order of the lists. -/
theorem mem_reachable_congr (roots : List String) (key : String) :
    key ∈ edges.reachable roots ↔ key ∈ other.reachable roots := by
  rw [mem_reachable, mem_reachable, Reaches, Reaches, leads_eq h]

/-- The first layer of what is reached does not depend on the order of the lists. -/
theorem ready_reachable_congr (roots : List String) :
    edges.ready (edges.reachable roots) = other.ready (other.reachable roots) := by
  rw [ready_reachable, ready_reachable]
  refine List.filter_congr fun key _ => ?_
  simp only [mem_fed, mem_reachable_congr h, h]

end congr

/-- After the first layer come keys that are blocked. -/
theorem exists_flatten_layers (h : edges.layers? keys = some layers) :
    ∃ rest, layers.flatten = edges.ready keys ++ rest ∧ ∀ key ∈ rest, key ∈ edges.blocked keys := by
  rw [layers?] at h
  split at h
  · rename_i hempty
    obtain rfl := Option.some.inj h
    obtain rfl := List.isEmpty_iff.1 hempty
    exact ⟨[], rfl, by simp⟩
  · split at h
    · cases h
    · obtain ⟨rest, hrest, rfl⟩ := Option.map_eq_some_iff.1 h
      exact ⟨rest.flatten, List.flatten_cons, fun key => (flatten_layers? hrest).1.mem_iff.1⟩

end Edges

namespace Graph

variable {g : Graph} {values : Grid Float32} {roots order other : List String} {key : String}
  {e : Evaluation} {s : Schedule}

/-! ## Orders of evaluation -/

/-- The graphs that are built from formula texts, and those that are merged from such graphs. -/
inductive Assembled : Graph → Prop
  /-- A graph that is built from formula texts, with or without cycles. -/
  | built (formulas : KeyMap String) : Assembled (ofFormulas formulas)
  /-- A graph that two such graphs were merged into. -/
  | merged {live incoming merged : Graph} (hlive : Assembled live)
      (hincoming : Assembled incoming) (hmerge : live.merge incoming = .ok merged) :
      Assembled merged

theorem Assembled.coherent (h : Assembled g) : g.Coherent := by
  induction h with
  | built formulas => exact coherent_ofFormulas formulas
  | merged _ _ hmerge hlive hincoming =>
    rw [eq_overlay_of_merge hmerge]
    exact hlive.overlay hincoming

/-- The cells that a change of the roots affects, each once and after all affected cells that it
reads. -/
structure EvaluationOrder (g : Graph) (roots order : List String) : Prop where
  /-- No cell has two turns. -/
  nodup : order.Nodup
  /-- The cells are the roots and what they reach. -/
  mem_iff : ∀ key, key ∈ order ↔ ∃ root ∈ roots, g.dependents.Reaches root key
  /-- No cell comes before one that it reads, and none reads itself. -/
  inputsFirst : g.EvaluatesInputsFirst order

/-- A topological order that is closed under the dependents is an order of evaluation, if it has the
roots and else only cells that it feeds. -/
theorem ListsReaders.evaluationOrder_of_closed (hreaders : g.ListsReaders) (hnodup : order.Nodup)
    (hroots : ∀ root ∈ roots, root ∈ order) (hclosed : g.dependents.Closed order)
    (hfed : ∀ key ∈ order, key ∈ roots ∨ ∃ source ∈ order, g.dependents.Leads source key)
    (hself : ∀ key ∈ order, ¬ g.dependents.Leads key key) (horder : g.dependents.InOrder order) :
    g.EvaluationOrder roots order where
  nodup := hnodup
  mem_iff _ := horder.mem_iff_reached hself hclosed hroots hfed
  inputsFirst :=
    ⟨horder.imp fun h hread => h ((hreaders _ _).2 hread),
      fun key hkey hread => hself key hkey ((hreaders _ _).2 hread)⟩

/-- A schedule is an order of evaluation. -/
theorem ListsReaders.evaluationOrder (hreaders : g.ListsReaders) (hs : g.schedule roots = .ok s) :
    g.EvaluationOrder roots s.order where
  nodup := nodup_order hs
  mem_iff _ := mem_order hs
  inputsFirst := hreaders.evaluatesInputsFirst hs

namespace EvaluationOrder

/-- An order of evaluation is closed under the dependents. -/
theorem closed (h : g.EvaluationOrder roots order) : g.dependents.Closed order := by
  intro source hsource reader hlead
  obtain ⟨root, hroot, hreach⟩ := (h.mem_iff source).1 hsource
  exact (h.mem_iff reader).2 ⟨root, hroot, hreach.tail hlead⟩

/-- An order of evaluation is a topological order. -/
theorem inOrder (h : g.EvaluationOrder roots order) (hreaders : g.ListsReaders) :
    g.dependents.InOrder order :=
  h.inputsFirst.1.imp fun hread hlead => hread ((hreaders _ _).1 hlead)

theorem not_leads_self (h : g.EvaluationOrder roots order) (hreaders : g.ListsReaders) :
    ∀ key ∈ order, ¬ g.dependents.Leads key key :=
  fun key hkey hlead => h.inputsFirst.2 key hkey ((hreaders _ _).1 hlead)

/-- A change that has an order of evaluation has a schedule. -/
theorem exists_schedule (h : g.EvaluationOrder roots order) (hreaders : g.ListsReaders) :
    ∃ s, g.schedule roots = .ok s := by
  refine exists_schedule_of_forall fun key hkey => ?_
  have horder : key ∈ order := (h.mem_iff key).2 (Edges.mem_reachable.1 hkey)
  exact (h.inOrder hreaders).not_onCycle (h.not_leads_self hreaders) h.closed horder

/-- Depths make an induction possible from what a cell of the order reads to the cell. -/
theorem wellFounded (h : g.EvaluationOrder roots order) (hreaders : g.ListsReaders) :
    WellFounded fun source reader => reader ∈ order ∧ g.Reads reader source := by
  let rank (key : String) : Nat := if key ∈ order then g.dependents.relaxed order key + 1 else 0
  refine Subrelation.wf (fun {source reader} hread => ?_) (measure rank).wf
  obtain ⟨hreader, hread⟩ := hread
  change rank source < rank reader
  simp only [rank, if_pos hreader]
  split
  · rename_i hsource
    have hlt := (h.inOrder hreaders).relaxed_lt (h.not_leads_self hreaders) hsource
      ((hreaders source reader).2 hread)
    omega
  · omega

/-! ## The outcome -/

/-- **All orders of evaluation end with the same grid.** -/
theorem final_eq (h : g.EvaluationOrder roots order) (hother : g.EvaluationOrder roots other)
    (hreaders : g.ListsReaders) (hseparate : g.Separate values.dimensions) :
    (g.evaluateAll values order).2 = (g.evaluateAll values other).2 := by
  have hresettles : g.Resettles (· ∈ order) values (g.evaluateAll values other).2 := by
    simp only [h.mem_iff, ← hother.mem_iff]
    exact resettles_evaluateAll values hother.nodup hother.inputsFirst
  exact (resettles_evaluateAll values h.nodup h.inputsFirst).eq_of_wellFounded
    (h.wellFounded hreaders) hresettles fun _ _ hmem => hseparate.undisturbed hmem

/-- A cell with a formula has its value over the final grid, and a key without one has what the grid
held for it at first, unless an evaluated cell shares its slot. -/
theorem value_eq (h : g.EvaluationOrder roots order) (hseparate : g.Separate values.dimensions)
    (he : e ∈ (g.evaluateAll values order).1)
    (hkey : e.key ∈ g.table ∨
      ∀ writer ∈ order, writer ∈ g.table → ¬ values.dimensions.SameSlot writer e.key) :
    e.value = (g.compute? (g.evaluateAll values order).2 e.key).getD (held values e.key) := by
  by_cases hmem : e.key ∈ g.table
  · obtain ⟨formula, hformula⟩ := KeyMap.mem_iff.1 hmem
    have horder : e.key ∈ order := map_key_evaluateAll g values order ▸ List.mem_map_of_mem he
    have hsettles := evaluateAll_settles h.nodup h.inputsFirst horder (hseparate.undisturbed hmem)
      hformula
    rw [hsettles.2 e he rfl, compute?, hformula]
    rfl
  · rw [value_of_mem_evaluateAll he hmem (hkey.resolve_left hmem), compute?,
      Std.ExtTreeMap.getElem?_eq_none hmem]
    rfl

/-- **An evaluation of one order of evaluation is one of every other**, unless it is that of a key
without a formula that shares its slot with an evaluated cell. -/
theorem mem_evaluateAll (h : g.EvaluationOrder roots order)
    (hother : g.EvaluationOrder roots other) (hreaders : g.ListsReaders)
    (hseparate : g.Separate values.dimensions)
    (hkey : e.key ∈ g.table ∨
      ∀ writer ∈ order, writer ∈ g.table → ¬ values.dimensions.SameSlot writer e.key)
    (he : e ∈ (g.evaluateAll values order).1) : e ∈ (g.evaluateAll values other).1 := by
  have hmem : ∀ key, key ∈ order ↔ key ∈ other := fun key =>
    (h.mem_iff key).trans (hother.mem_iff key).symm
  have hturn : e.key ∈ (g.evaluateAll values other).1.map (·.key) := by
    rw [map_key_evaluateAll, ← hmem, ← map_key_evaluateAll g values order]
    exact List.mem_map_of_mem he
  obtain ⟨e', he', hkey'⟩ := List.mem_map.1 hturn
  -- the key settles the value and the write of its evaluation
  have hvalue : e'.value = e.value := by
    rw [h.value_eq hseparate he hkey, h.final_eq hother hreaders hseparate, ← hkey']
    refine hother.value_eq hseparate he' (hkey' ▸ hkey.imp_right fun hfree writer hwriter => ?_)
    exact hfree writer ((hmem writer).2 hwriter)
  have hwrite : e'.write = e.write := by
    rw [write_of_mem_evaluateAll he, write_of_mem_evaluateAll he', hkey']
  have heq : e' = e := (Evaluation.mk.injEq ..).mpr ⟨hkey', hvalue, hwrite⟩
  exact heq ▸ he'

end EvaluationOrder

/-! ## Other lists of dependents -/

/-- An evaluation does not look at the edges. -/
theorem evaluateAll_relisted (g : Graph) (dependents : Edges) (values : Grid Float32)
    (order : List String) :
    { g with dependents := dependents }.evaluateAll values order = g.evaluateAll values order := by
  induction order generalizing values with
  | nil => rfl
  | cons key rest ih =>
    rw [evaluateAll_cons, evaluateAll_cons, ih]
    rfl

/-- A recalculation is refused as its schedule is. -/
theorem recalculate_eq_error_iff {cause : SheetError} :
    g.recalculate values roots = .error cause ↔ g.schedule roots = .error cause := by
  rw [recalculate]
  cases g.schedule roots <;> simp [Except.map]

theorem recalculate_eq_ok_iff {result : List Evaluation × Grid Float32} :
    g.recalculate values roots = .ok result ↔
      ∃ s, g.schedule roots = .ok s ∧ g.evaluateAll values s.order = result := by
  rw [recalculate]
  cases g.schedule roots <;> simp [Except.map]

/-- The evaluation of a key without a formula is in the first layer. -/
theorem mem_evaluateAll_ready (values : Grid Float32) (hreaders : g.ListsReaders)
    (hs : g.schedule roots = .ok s) (hkey : e.key ∉ g.table) :
    e ∈ (g.evaluateAll values s.order).1 ↔
      e ∈ (g.evaluateAll values (g.dependents.ready (g.dependents.reachable roots))).1 := by
  obtain ⟨rest, hrest, hblocked⟩ := Edges.exists_flatten_layers (layers_of_schedule hs)
  rw [Schedule.order, hrest, evaluateAll_append, List.mem_append]
  refine or_iff_left fun he => hkey ?_
  have hlater : e.key ∈ rest := by
    rw [← map_key_evaluateAll g _ rest]
    exact List.mem_map_of_mem he
  -- what is blocked is fed, and so it reads
  obtain ⟨-, source, -, hlead⟩ := Edges.mem_blocked.1 (hblocked e.key hlater)
  exact mem_table_of_reads ((hreaders source e.key).1 hlead)

section Relisted

variable {dependents : Edges}
  (hleads : ∀ source reader, dependents.Leads source reader ↔ g.dependents.Leads source reader)
include hleads

/-- A change is refused alike, whatever the order of the lists. -/
theorem schedule_relisted_eq_error_iff {cause : SheetError} :
    { g with dependents := dependents }.schedule roots = .error cause ↔
      g.schedule roots = .error cause := by
  have hmem := Edges.mem_reachable_congr hleads roots
  have hcycle := Edges.onCycle_congr hleads
  simp only [schedule_eq_error_iff, Edges.cycleMembers_within (Edges.closed_reachable _ roots),
    Edges.cycleMembers_congr hcycle, hmem, hcycle]

/-- A schedule from other lists is an order of evaluation as well. -/
theorem EvaluationOrder.of_relisted
    (h : { g with dependents := dependents }.EvaluationOrder roots order) :
    g.EvaluationOrder roots order where
  nodup := h.nodup
  mem_iff key := by
    rw [← Edges.mem_reachable, ← Edges.mem_reachable_congr hleads, Edges.mem_reachable]
    exact h.mem_iff key
  inputsFirst := h.inputsFirst

/-- **Other lists of dependents give the same evaluations**, perhaps in another order, and the same
final grid. -/
theorem recalculate_relisted (hreaders : g.ListsReaders) (hseparate : g.Separate values.dimensions)
    {evaluations : List Evaluation} {final : Grid Float32}
    (h : g.recalculate values roots = .ok (evaluations, final)) :
    ∃ evaluations', { g with dependents := dependents }.recalculate values roots =
      .ok (evaluations', final) ∧ evaluations'.Perm evaluations := by
  obtain ⟨s, hs, hresult⟩ := recalculate_eq_ok_iff.1 h
  obtain ⟨rfl, rfl⟩ := Prod.mk.inj hresult
  let relisted : Graph := { g with dependents := dependents }
  have hreaders' : relisted.ListsReaders := fun source reader =>
    (hleads source reader).trans (hreaders source reader)
  obtain ⟨s', hs'⟩ : ∃ s', relisted.schedule roots = .ok s' := by
    cases hs' : relisted.schedule roots with
    | ok s' => exact ⟨s', rfl⟩
    | error cause => exact nomatch hs.symm.trans ((schedule_relisted_eq_error_iff hleads).1 hs')
  have hevaluate := evaluateAll_relisted g dependents values
  have horder := hreaders.evaluationOrder hs
  have horder' : g.EvaluationOrder roots s'.order :=
    (hreaders'.evaluationOrder hs').of_relisted hleads
  have hnodup : ∀ {order}, g.EvaluationOrder roots order →
      (g.evaluateAll values order).1.Nodup := by
    intro order h
    refine List.Nodup.of_map (·.key) ?_
    rw [map_key_evaluateAll]
    exact h.nodup
  refine ⟨(g.evaluateAll values s'.order).1, recalculate_eq_ok_iff.2 ⟨s', hs', ?_⟩,
    (List.perm_ext_iff_of_nodup (hnodup horder') (hnodup horder)).2 fun e => ?_⟩
  · rw [hevaluate, ← horder'.final_eq horder hreaders hseparate]
  · by_cases hkey : e.key ∈ g.table
    · exact ⟨horder'.mem_evaluateAll horder hreaders hseparate (.inl hkey),
        horder.mem_evaluateAll horder' hreaders hseparate (.inl hkey)⟩
    · -- the first layers are equal, so a key without a formula has its turn over the same grid
      have hlayer := mem_evaluateAll_ready values hreaders' hs' hkey
      rw [hevaluate, hevaluate, Edges.ready_reachable_congr hleads] at hlayer
      rw [hlayer, mem_evaluateAll_ready values hreaders hs hkey]

end Relisted

/-! ## Any order -/

/-- **Any order of evaluation gives a recalculation.** Let no cell of an assembled graph that has a
formula share its slot with another one or with another key that a formula names. Evaluating the
cells that the roots reach once each, in any order in which each cell comes after all of them that
it reads, ends with the grid that a recalculation ends with, which succeeds then. The evaluations go
where those of the recalculation go, and they are the same, unless a key has no formula and shares
its slot with an evaluated cell that has one; such a key has what the grid holds for it at first or
in the end. A slot that no evaluated cell writes keeps its entry. Lists of dependents in other
orders give the same refusals, the same final grid and the same evaluations, and so does each
topological order along which depths are found. -/
theorem recalculated_in_any_order (hassembled : g.Assembled)
    (hseparate : g.Separate values.dimensions) (roots : List String) :
    (∀ order, g.EvaluationOrder roots order → ∃ evaluations final,
      g.recalculate values roots = .ok (evaluations, final) ∧
      (g.evaluateAll values order).2 = final ∧
      ((g.evaluateAll values order).1.map fun e => (e.key, e.write)).Perm
        (evaluations.map fun e => (e.key, e.write)) ∧
      (∀ e : Evaluation, (e.key ∈ g.table ∨
          ∀ writer ∈ order, writer ∈ g.table → ¬ values.dimensions.SameSlot writer e.key) →
        (e ∈ (g.evaluateAll values order).1 ↔ e ∈ evaluations)) ∧
      (∀ e ∈ (g.evaluateAll values order).1, e.key ∉ g.table →
        e.value = held values e.key ∨ e.value = held final e.key) ∧
      ∀ i, (∀ key ∈ order, key ∈ g.table → values.dimensions.slot? key ≠ some i) →
        final.cells[i]? = values.cells[i]?) ∧
    (∀ dependents : Edges,
      (∀ source reader, dependents.Leads source reader ↔ g.dependents.Leads source reader) →
      let relisted := { g with dependents := dependents }
      (∀ cause, relisted.recalculate values roots = .error cause ↔
        g.recalculate values roots = .error cause) ∧
      ∀ evaluations final, g.recalculate values roots = .ok (evaluations, final) →
        ∃ evaluations', relisted.recalculate values roots = .ok (evaluations', final) ∧
          evaluations'.Perm evaluations) ∧
    ∀ evaluations final, g.recalculate values roots = .ok (evaluations, final) →
      ∀ order : List String, order.Perm (g.dependents.reachable roots) →
        g.dependents.InOrder order →
        g.evaluateAll values ((g.dependents.reachable roots).mergeSort fun a b =>
          g.dependents.relaxed order a ≤ g.dependents.relaxed order b) = (evaluations, final) := by
  have hreaders := hassembled.coherent.listsReaders
  refine ⟨fun order horder => ?_, fun dependents hleads => ?_, fun evaluations final h => ?_⟩
  · obtain ⟨s, hs⟩ := horder.exists_schedule hreaders
    have hscheduled := hreaders.evaluationOrder hs
    have hmem : ∀ key, key ∈ order ↔ key ∈ s.order := fun key =>
      (horder.mem_iff key).trans (hscheduled.mem_iff key).symm
    have hfinal := horder.final_eq hscheduled hreaders hseparate
    refine ⟨(g.evaluateAll values s.order).1, (g.evaluateAll values order).2,
      recalculate_eq_ok_iff.2 ⟨s, hs, hfinal ▸ rfl⟩, rfl, ?_, fun e hkey => ⟨?_, ?_⟩,
      fun e => hseparate.value_eq_or horder.nodup, fun i => cells_evaluateAll⟩
    · rw [map_write_evaluateAll, map_write_evaluateAll]
      exact ((List.perm_ext_iff_of_nodup horder.nodup hscheduled.nodup).2 hmem).map _
    · exact horder.mem_evaluateAll hscheduled hreaders hseparate hkey
    · refine hscheduled.mem_evaluateAll horder hreaders hseparate ?_
      exact hkey.imp_right fun hfree writer hwriter => hfree writer ((hmem writer).2 hwriter)
  · refine ⟨fun cause => ?_, fun evaluations final => recalculate_relisted hleads hreaders hseparate⟩
    rw [recalculate_eq_error_iff, recalculate_eq_error_iff, schedule_relisted_eq_error_iff hleads]
  · intro order hperm hinorder
    obtain ⟨s, hs, hresult⟩ := recalculate_eq_ok_iff.1 h
    rw [← order_eq_mergeSort hs hperm hinorder, hresult]

/-- Where two cells read `A1` and a fourth one reads both, the two may have their turns in either
order, whatever the grid held before. -/
theorem diamond_recalculated_either_way :
    let g := Graph.ofFormulas
      (.ofList [("A1", "1"), ("B1", "A1 + 1"), ("C1", "A1 + 2"), ("D1", "B1 + C1")])
    let values : Grid Float32 := ⟨⟨4, 1, by decide, by decide⟩, #[7, 7, 7, 7], rfl, by decide⟩
    let order := ["A1", "C1", "B1", "D1"]
    g.Assembled ∧ g.Separate values.dimensions ∧ g.EvaluationOrder ["A1"] order ∧
      ∃ evaluations,
        g.recalculate values ["A1"] = .ok (evaluations, (g.evaluateAll values order).2) ∧
        ⟨"D1", 5, .stored 3⟩ ∈ evaluations := by
  intro g values order
  have hassembled : g.Assembled := .built _
  have hseparate : g.Separate values.dimensions := by decide +kernel
  have horder : g.EvaluationOrder ["A1"] order :=
    hassembled.coherent.listsReaders.evaluationOrder_of_closed (by decide) (by decide)
      (by decide +kernel) (by decide +kernel) (by decide +kernel) (by decide +kernel)
  obtain ⟨hany, -, -⟩ := recalculated_in_any_order hassembled hseparate ["A1"]
  obtain ⟨evaluations, final, hrecalculate, rfl, -, hmem, -, -⟩ := hany order horder
  refine ⟨hassembled, hseparate, horder, evaluations, hrecalculate, (hmem _ ?_).1 ?_⟩
  · exact .inl (by decide +kernel)
  · decide +kernel

/-- The value of a key without a formula can depend on the order: here `AA1` shares the slot of
`A1`, which a recalculation evaluates first. -/
theorem unread_alias_depends_on_order :
    let g := Graph.ofFormulas (.ofList [("A1", "5")])
    let values : Grid Float32 := ⟨⟨2, 1, by decide, by decide⟩, #[0, 0], rfl, by decide⟩
    let roots := ["A1", "AA1"]
    let order := ["AA1", "A1"]
    g.Assembled ∧ g.Separate values.dimensions ∧ g.EvaluationOrder roots order ∧
      ∃ evaluations final, g.recalculate values roots = .ok (evaluations, final) ∧
        ∃ first ∈ (g.evaluateAll values order).1, ∃ second ∈ evaluations,
          first.key = "AA1" ∧ second.key = "AA1" ∧ first.value ≠ second.value := by
  intro g values roots order
  have hassembled : g.Assembled := .built _
  have horder : g.EvaluationOrder roots order :=
    hassembled.coherent.listsReaders.evaluationOrder_of_closed (by decide) (by decide)
      (by decide +kernel) (by decide +kernel) (by decide +kernel) (by decide +kernel)
  have hschedule : g.schedule roots = .ok ⟨[roots]⟩ :=
    schedule_of_targets_eq_nil (by decide) (by decide) (by decide +kernel)
  have hrecalculate : g.recalculate values roots = .ok (g.evaluateAll values roots) :=
    recalculate_eq_ok_iff.2 ⟨_, hschedule, rfl⟩
  refine ⟨hassembled, by decide +kernel, horder, _, _, hrecalculate, ⟨"AA1", 0, .missing⟩, ?_,
    ⟨"AA1", 5, .missing⟩, ?_, rfl, rfl, ?_⟩
  · decide +kernel
  · decide +kernel
  · decide +kernel

end Graph

end Spreadsheet
