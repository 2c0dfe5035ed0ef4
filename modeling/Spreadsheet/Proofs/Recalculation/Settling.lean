import Spreadsheet.Proofs.Graph.Balance
import Spreadsheet.Recalculation.Evaluation

/-! # Settled grids
A cell is **settled** if its slot holds the value of its formula over the grid as it is. Different
keys can share a slot, so a cell is settled for good only if it is **undisturbed**: no other cell
with a formula writes its slot or the slot of a key that it reads. A set of cells **resettles** a
grid if the undisturbed cells of the set are settled then and every slot that none of the set
writes is as before. If all cells of the set are undisturbed and there is an induction from what they
read to the cells, as on an acyclic graph, there is only one such outcome, whatever strategy leads
to it, and evaluating cells once each in order is one. -/

namespace Spreadsheet

/-! ## Slots -/

namespace Dimensions

/-- The flat index of the cell that a key addresses, its **slot**. -/
def slot? (d : Dimensions) (key : String) : Option Nat := (Key.position? key).bind d.index?

/-- Two keys address one cell of the grid. -/
def SameSlot (d : Dimensions) (key other : String) : Prop :=
  ∃ i, d.slot? key = some i ∧ d.slot? other = some i

variable {d : Dimensions} {key other : String}

theorem sameSlot_iff :
    d.SameSlot key other ↔ (d.slot? key).isSome ∧ d.slot? key = d.slot? other := by
  rw [SameSlot, Option.isSome_iff_exists]
  constructor
  · rintro ⟨i, hkey, hother⟩
    exact ⟨⟨i, hkey⟩, hkey.trans hother.symm⟩
  · rintro ⟨⟨i, hkey⟩, heq⟩
    exact ⟨i, hkey, heq ▸ hkey⟩

theorem SameSlot.symm (h : d.SameSlot key other) : d.SameSlot other key := by
  obtain ⟨i, hkey, hother⟩ := h
  exact ⟨i, hother, hkey⟩

theorem SameSlot.trans {third : String} (h : d.SameSlot key other)
    (h' : d.SameSlot other third) : d.SameSlot key third := by
  simp only [sameSlot_iff] at h h' ⊢
  exact ⟨h.1, h.2.trans h'.2⟩

instance (d : Dimensions) (key other : String) : Decidable (d.SameSlot key other) :=
  decidable_of_iff _ sameSlot_iff.symm

end Dimensions

namespace Grid

variable {α : Type} {a b g : Grid α} {key : String} {i : Nat}

theorem index?_eq_slot? (g : Grid α) (key : String) : g.index? key = g.dimensions.slot? key := rfl

/-- A grid is determined by its dimensions and its entries. -/
theorem eq_of_cells (hdim : a.dimensions = b.dimensions)
    (hcells : ∀ i : Nat, a.cells[i]? = b.cells[i]?) : a = b := by
  obtain ⟨_, cells, _, _⟩ := a
  obtain ⟨_, cells', _, _⟩ := b
  obtain rfl : cells = cells' := Array.ext_getElem? hcells
  obtain rfl := hdim
  rfl

/-- What a grid holds for a key is the entry of its slot. -/
theorem get?_eq (g : Grid α) (key : String) :
    g.get? key = (g.dimensions.slot? key).bind (g.cells[·]?) := rfl

/-- Grids that agree on the slot of a key hold the same for it. -/
theorem get?_congr (hdim : a.dimensions = b.dimensions)
    (h : ∀ i, b.dimensions.slot? key = some i → a.cells[i]? = b.cells[i]?) :
    a.get? key = b.get? key := by
  rw [get?_eq, get?_eq, hdim]
  cases hslot : b.dimensions.slot? key with
  | none => rfl
  | some i => exact h i hslot

/-- A write changes the entry of one slot. -/
theorem cells_set (g : Grid α) (key : String) (a : α) (i : Nat) :
    (g.set key a).1.cells[i]? =
      if g.dimensions.slot? key = some i then some a else g.cells[i]? := by
  unfold set
  split
  · rename_i j hj
    rw [cells_setIndex, if_pos (index?_lt_size hj)]
    rw [index?_eq_slot?] at hj
    rw [hj]
    simp only [Option.some.injEq]
  · rename_i hnone
    rw [index?_eq_slot?] at hnone
    rw [hnone, if_neg nofun]

end Grid

/-- The value of a formula depends only on what the grid holds for the keys that it names. -/
theorem Formula.eval_congr {formula : Formula} {a b : Grid Float32}
    (h : ∀ key ∈ formula.references, a.get? key = b.get? key) :
    formula.eval a = formula.eval b := by
  induction formula with
  | literal | unknown => rfl
  | reference key => rw [eval, eval, h key (List.mem_singleton_self key)]
  | operation op left right ihl ihr =>
    rw [eval, eval, ihl fun key hkey => h key (List.mem_append_left _ hkey),
      ihr fun key hkey => h key (List.mem_append_right _ hkey)]

namespace Graph

variable {g : Graph} {d : Dimensions} {values before after : Grid Float32} {key reader : String}

/-! ## Undisturbed cells -/

/-- No cell with a formula, other than the key itself, writes the slot of a key. -/
def Unshared (g : Graph) (d : Dimensions) (key : String) : Prop :=
  ∀ writer ∈ g.table, d.SameSlot writer key → writer = key

/-- A key and the keys that its formula names are unshared. -/
def Undisturbed (g : Graph) (d : Dimensions) (key : String) : Prop :=
  g.Unshared d key ∧ ∀ source, g.Reads key source → g.Unshared d source

/-- No cell with a formula shares its slot with another one or with another key that a formula
names. -/
def Separate (g : Graph) (d : Dimensions) : Prop :=
  ∀ key ∈ g.table, ∀ other, other ∈ g.table ∨ (∃ reader, g.Reads reader other) →
    d.SameSlot key other → key = other

/-- The keys that have a formula or that a formula names. -/
def named (g : Graph) : List String :=
  g.table.toList.flatMap fun (key, formula) => key :: formula.references

theorem mem_named : key ∈ g.named ↔ key ∈ g.table ∨ ∃ reader, g.Reads reader key := by
  rw [KeyMap.mem_iff]
  simp only [named, Reads, List.mem_flatMap, Prod.exists, List.mem_cons,
    Std.ExtTreeMap.mem_toList_iff_getElem?_eq_some]
  constructor
  · rintro ⟨reader, formula, hformula, rfl | hkey⟩
    · exact .inl ⟨formula, hformula⟩
    · exact .inr ⟨reader, formula, hformula, hkey⟩
  · rintro (⟨formula, hformula⟩ | ⟨reader, formula, hformula, hkey⟩)
    · exact ⟨key, formula, hformula, .inl rfl⟩
    · exact ⟨reader, formula, hformula, .inr hkey⟩

theorem separate_iff : g.Separate d ↔
    ∀ key ∈ g.table.keys, ∀ other ∈ g.named, d.SameSlot key other → key = other := by
  simp only [Separate, Std.ExtTreeMap.mem_keys, mem_named]

instance (g : Graph) (d : Dimensions) : Decidable (g.Separate d) :=
  decidable_of_iff _ separate_iff.symm

/-- Which cells are separate is a matter of the formulas alone. -/
theorem Separate.congr_table {g' : Graph} (htable : g.table = g'.table) (h : g.Separate d) :
    g'.Separate d := by
  rw [separate_iff, named] at h ⊢
  exact htable ▸ h

theorem mem_table_of_reads {source : String} (h : g.Reads reader source) : reader ∈ g.table := by
  obtain ⟨formula, hformula, -⟩ := h
  exact KeyMap.mem_iff.2 ⟨formula, hformula⟩

theorem mem_table_of_eq_some {formula : Formula} (h : g.table[key]? = some formula) :
    key ∈ g.table :=
  KeyMap.mem_iff.2 ⟨formula, h⟩

/-- Where the cells of a graph are separate, each is undisturbed. -/
theorem Separate.undisturbed (h : g.Separate d) (hkey : key ∈ g.table) : g.Undisturbed d key :=
  ⟨fun writer hwriter hslot => h writer hwriter key (.inl hkey) hslot,
    fun source hread writer hwriter hslot => h writer hwriter source (.inr ⟨key, hread⟩) hslot⟩

/-! ## Settled cells -/

/-- If the cell has a formula and a slot, the slot holds the value of the formula, narrowed. -/
def SettledAt (g : Graph) (values : Grid Float32) (key : String) : Prop :=
  ∀ formula, g.table[key]? = some formula → ∀ i, values.dimensions.slot? key = some i →
    values.cells[i]? = some (narrow (formula.eval values))

/-- One grid comes from another by settling some cells: the other slots are untouched. -/
structure Resettles (g : Graph) (cells : String → Prop) (before after : Grid Float32) : Prop where
  /-- The dimensions are kept. -/
  dimensions_eq : after.dimensions = before.dimensions
  /-- A slot that no cell of the set writes keeps its entry. -/
  untouched : ∀ i, (∀ key, cells key → key ∈ g.table → before.dimensions.slot? key ≠ some i) →
    after.cells[i]? = before.cells[i]?
  /-- The undisturbed cells of the set are settled. -/
  settled : ∀ key, cells key → g.Undisturbed before.dimensions key → g.SettledAt after key

variable {cells affected : String → Prop}

/-- What the grid holds for a key is untouched unless a cell of the set writes its slot. -/
theorem Resettles.get?_eq (h : g.Resettles cells before after)
    (hkey : ∀ writer, cells writer → writer ∈ g.table → ¬ before.dimensions.SameSlot writer key) :
    after.get? key = before.get? key :=
  Grid.get?_congr h.dimensions_eq fun i hslot =>
    h.untouched i fun writer hwriter hmem heq => hkey writer hwriter hmem ⟨i, heq, hslot⟩

/-- Settling is a matter of the formulas alone. -/
theorem Resettles.congr_table {g' : Graph} (htable : g.table = g'.table)
    (h : g.Resettles cells before after) : g'.Resettles cells before after := by
  obtain ⟨table, dependencies, dependents⟩ := g
  obtain ⟨table', dependencies', dependents'⟩ := g'
  obtain rfl : table = table' := htable
  exact ⟨h.dimensions_eq, h.untouched, h.settled⟩

/-- A cell of the graph reads only cells that settle before it, so there is an induction from the
keys that a cell reads to the cell. -/
theorem Coherent.wellFounded_reads (hcoherent : g.Coherent) (hacyclic : g.dependencies.Acyclic) :
    WellFounded fun source reader => g.Reads reader source :=
  Subrelation.wf (fun {_ _} hread => hcoherent.leads_dependencies_iff.2 hread) hacyclic.wellFounded

/-- **There is one settled outcome.** Two grids that undisturbed cells resettle from one grid are
equal, if there is an induction from the keys that one of these cells reads to the cell. -/
theorem Resettles.eq_of_wellFounded {a b : Grid Float32}
    (hreads : WellFounded fun source reader => cells reader ∧ g.Reads reader source)
    (ha : g.Resettles cells before a) (hb : g.Resettles cells before b)
    (hcells : ∀ key, cells key → key ∈ g.table → g.Undisturbed before.dimensions key) : a = b := by
  have hget : ∀ key, (∀ writer, cells writer → writer ∈ g.table →
      before.dimensions.SameSlot writer key → writer = key) → a.get? key = b.get? key := by
    intro key
    induction key using hreads.induction with
    | _ key ih =>
      intro hshared
      by_cases hkey : cells key ∧ key ∈ g.table
      · -- the formula of the key has one value, since its keys hold the same in both grids
        obtain ⟨hcell, hmem⟩ := hkey
        have hund := hcells key hcell hmem
        obtain ⟨formula, hformula⟩ := KeyMap.mem_iff.1 hmem
        have heval : formula.eval a = formula.eval b := Formula.eval_congr fun source hsource =>
          have hread : g.Reads key source := ⟨formula, hformula, hsource⟩
          ih source ⟨hcell, hread⟩ fun writer _ => hund.2 source hread writer
        refine Grid.get?_congr (ha.dimensions_eq.trans hb.dimensions_eq.symm) fun i hslot => ?_
        rw [hb.dimensions_eq] at hslot
        rw [ha.settled key hcell hund formula hformula i (by rw [ha.dimensions_eq, hslot]),
          hb.settled key hcell hund formula hformula i (by rw [hb.dimensions_eq, hslot]), heval]
      · have hfree : ∀ writer, cells writer → writer ∈ g.table →
            ¬ before.dimensions.SameSlot writer key := fun writer hwriter hmem hslot =>
          hkey (hshared writer hwriter hmem hslot ▸ ⟨hwriter, hmem⟩)
        rw [ha.get?_eq hfree, hb.get?_eq hfree]
  refine Grid.eq_of_cells (ha.dimensions_eq.trans hb.dimensions_eq.symm) fun i => ?_
  by_cases hi : ∃ key, cells key ∧ key ∈ g.table ∧ before.dimensions.slot? key = some i
  · obtain ⟨key, hcell, hmem, hslot⟩ := hi
    have heq := hget key fun writer _ => (hcells key hcell hmem).1 writer
    rw [Grid.get?_eq, Grid.get?_eq, ha.dimensions_eq, hb.dimensions_eq, hslot] at heq
    exact heq
  · have hfree : ∀ key, cells key → key ∈ g.table → before.dimensions.slot? key ≠ some i :=
      fun key hcell hmem hslot => hi ⟨key, hcell, hmem, hslot⟩
    rw [ha.untouched i hfree, hb.untouched i hfree]

/-- In an acyclic graph there is one settled outcome. -/
theorem Resettles.unique {a b : Grid Float32} (hcoherent : g.Coherent)
    (hacyclic : g.dependencies.Acyclic) (ha : g.Resettles cells before a)
    (hb : g.Resettles cells before b)
    (hcells : ∀ key, cells key → key ∈ g.table → g.Undisturbed before.dimensions key) : a = b :=
  ha.eq_of_wellFounded
    (Subrelation.wf (fun {_ _} h => h.2) (hcoherent.wellFounded_reads hacyclic)) hb hcells

/-! ## Settling again after an edit -/

variable {live merged : Graph} {blank : Grid Float32}

/-- Where formulas are only added or replaced, a cell that keeps its formula and is undisturbed
after an edit was undisturbed before it. -/
theorem Undisturbed.of_edit (h : merged.Undisturbed d key)
    (hgrow : ∀ other ∈ live.table, other ∈ merged.table)
    (hkeep : live.table[key]? = merged.table[key]?) : live.Undisturbed d key := by
  refine ⟨fun writer hwriter => h.1 writer (hgrow writer hwriter), ?_⟩
  rintro source ⟨formula, hformula, hsource⟩ writer hwriter
  exact h.2 source ⟨formula, hkeep ▸ hformula, hsource⟩ writer (hgrow writer hwriter)

/-- **Settling what an edit affects keeps the grid settled.** Let a grid be settled for a graph,
and let an edit add or replace formulas of affected cells only. If every cell that reads an
affected cell is affected, then a grid that the affected cells resettle is settled for the edited
graph: a cell that is not affected reads what it read before. -/
theorem Resettles.edit (hlive : live.Resettles (fun _ => True) blank before)
    (hafter : merged.Resettles affected before after)
    (hgrow : ∀ key ∈ live.table, key ∈ merged.table)
    (hkeep : ∀ key, ¬ affected key → live.table[key]? = merged.table[key]?)
    (hclosed : ∀ source reader, affected source → merged.Reads reader source → affected reader) :
    merged.Resettles (fun _ => True) blank after where
  dimensions_eq := hafter.dimensions_eq.trans hlive.dimensions_eq
  untouched i hfree := by
    rw [hafter.untouched i fun key _ hkey => hlive.dimensions_eq ▸ hfree key trivial hkey]
    exact hlive.untouched i fun key _ hkey => hfree key trivial (hgrow key hkey)
  settled key _ hund := by
    rw [← hlive.dimensions_eq] at hund
    by_cases haffected : affected key
    · exact hafter.settled key haffected hund
    -- the others keep their formulas, and neither their slots nor their inputs are written
    intro formula hformula i hslot
    rw [hafter.dimensions_eq] at hslot
    have hkept := hkeep key haffected
    have hsettled := hlive.settled key trivial
      (hlive.dimensions_eq ▸ hund.of_edit hgrow hkept) formula (hkept.trans hformula) i hslot
    have heval : formula.eval after = formula.eval before :=
      Formula.eval_congr fun source hsource => by
        have hread : merged.Reads key source := ⟨formula, hformula, hsource⟩
        refine hafter.get?_eq fun writer hwriter hmem hshared => ?_
        obtain rfl := hund.2 source hread writer hmem hshared
        exact haffected (hclosed writer key hwriter hread)
    rw [heval, ← hsettled]
    refine hafter.untouched i fun writer hwriter hmem hshared => ?_
    obtain rfl := hund.1 writer hmem ⟨i, hshared, hslot⟩
    exact haffected hwriter

/-- A grid without a formula to settle is settled. -/
theorem resettles_empty (cells : String → Prop) (blank : Grid Float32) :
    Graph.empty.Resettles cells blank blank where
  dimensions_eq := rfl
  untouched _ _ := rfl
  settled key _ _ formula hformula := by simp [Graph.empty] at hformula

end Graph

end Spreadsheet
