import Mathlib.Data.List.Flatten
import Mathlib.Data.List.Nodup
import Mathlib.Data.List.Sort
import Mathlib.Data.String.Basic
import Spreadsheet.Proofs.Graph.Reach

/-! # Strong components and cycles
Two keys are **connected** if each reaches the other, and the **strong components** of edges are
the classes of connected keys. A key is on a cycle exactly when its component has another key or
when it leads to itself, so the cycle members can be read off the components, in whatever order
these are listed. Among the keys of a list that is closed under the edges, the cycles are those of
all edges: the list neither cuts a cycle nor closes one. So the check of a graph refuses it exactly
for its cycles, and names the keys on them. -/

namespace Spreadsheet

/-- Ascending lists with the same members are equal. -/
theorem eq_of_ascending {l l' : List String} (hl : l.Pairwise (· < ·)) (hl' : l'.Pairwise (· < ·))
    (hmem : ∀ key, key ∈ l ↔ key ∈ l') : l = l' := by
  have hperm : l.Perm l' :=
    (List.perm_ext_iff_of_nodup (hl.imp ne_of_lt) (hl'.imp ne_of_lt)).2 hmem
  exact hperm.eq_of_pairwise (fun _ _ _ _ h h' => absurd h h'.asymm) hl hl'

namespace Edges

variable {edges : Edges} {keys : List String} {components : List (List String)}
  {key other source target : String}

/-- Edges with the same keys on cycles have the same cycle members. -/
theorem cycleMembers_congr {other : Edges} (h : ∀ key, edges.OnCycle key ↔ other.OnCycle key) :
    edges.cycleMembers = other.cycleMembers := by
  refine eq_of_ascending (ascending_cycleMembers edges) (ascending_cycleMembers other)
    fun key => ?_
  rw [mem_cycleMembers, mem_cycleMembers, h]

/-! ## Components -/

/-- Each of two keys reaches the other. -/
def Connected (edges : Edges) (key other : String) : Prop :=
  edges.Reaches key other ∧ edges.Reaches other key

/-- A list of the classes of connected keys, in any order, that leaves out no key with an entry. -/
structure StrongComponents (edges : Edges) (components : List (List String)) : Prop where
  /-- No key is listed twice. -/
  nodup : components.flatten.Nodup
  /-- Every key with an entry is in a component. -/
  covers : ∀ key ∈ edges, key ∈ components.flatten
  /-- A component has all keys that are connected with one of its own, and no others. -/
  mem_iff : ∀ component ∈ components, ∀ key ∈ component, ∀ other,
    other ∈ component ↔ edges.Connected key other

/-- Lists of keys that lead to each other are the strong components if some level of the keys never
rises along an edge and is another one in each list. -/
theorem strongComponents_of_level (level : String → Nat) (hnodup : components.flatten.Nodup)
    (hcovers : ∀ key ∈ edges.keys, key ∈ components.flatten)
    (hlevel : ∀ key ∈ edges.keys, ∀ target ∈ edges.targets key, level target ≤ level key)
    (hconnected : ∀ component ∈ components, ∀ key ∈ component, ∀ other ∈ component,
      other = key ∨ edges.Leads key other)
    (hseparate : ∀ component ∈ components, ∀ key ∈ component, ∀ other ∈ edges.keys,
      level other = level key → other ∈ component) : edges.StrongComponents components where
  nodup := hnodup
  covers key hkey := hcovers key (Std.ExtTreeMap.mem_keys.2 hkey)
  mem_iff component hcomponent key hkey other := by
    have hreaches : ∀ {key other}, edges.Reaches key other → level other ≤ level key := by
      intro key other hreach
      induction hreach with
      | refl => exact Nat.le_refl _
      | tail _ hlead ih =>
        exact (hlevel _ (Std.ExtTreeMap.mem_keys.2 (mem_of_leads hlead)) _ hlead).trans ih
    have hreach : ∀ key ∈ component, ∀ other ∈ component, edges.Reaches key other := by
      intro key hkey other hother
      rcases hconnected component hcomponent key hkey other hother with rfl | hlead
      · exact .refl
      · exact .single hlead
    constructor
    · exact fun hother => ⟨hreach key hkey other hother, hreach other hother key hkey⟩
    · rintro ⟨hforth, hback⟩
      rcases hback.cases_head with rfl | ⟨next, hlead, -⟩
      · exact hkey
      · exact hseparate component hcomponent key hkey other
          (Std.ExtTreeMap.mem_keys.2 (mem_of_leads hlead))
          (Nat.le_antisymm (hreaches hforth) (hreaches hback))

/-- A component goes round in a cycle if it has several keys, or one that leads to itself. -/
def isCyclic (edges : Edges) : List String → Bool
  | [] => false
  | [key] => edges.Leads key key
  | _ :: _ :: _ => true

/-- The keys of the components that go round in a cycle, in ascending order. -/
def membersOf (edges : Edges) (components : List (List String)) : List String :=
  (components.filter edges.isCyclic).flatten.mergeSort (· ≤ ·)

/-- Different keys that are connected are on a cycle. -/
theorem Connected.onCycle (h : edges.Connected key other) (hne : other ≠ key) :
    edges.OnCycle key := by
  obtain ⟨next, hlead, hreach⟩ := h.1.cases_head.resolve_left (Ne.symm hne)
  exact .head' hlead (hreach.trans h.2)

/-- **A key is on a cycle** exactly when its component goes round in one. -/
theorem StrongComponents.isCyclic_iff {component : List String}
    (h : edges.StrongComponents components) (hcomponent : component ∈ components)
    (hkey : key ∈ component) : edges.isCyclic component ↔ edges.OnCycle key := by
  have hmem := h.mem_iff component hcomponent
  match component, hkey with
  | [single], hkey =>
    obtain rfl := List.mem_singleton.1 hkey
    simp only [isCyclic, decide_eq_true_eq]
    constructor
    · exact .single
    · -- the first step of the cycle ends in the component, which is the key itself
      intro hcycle
      obtain ⟨next, hlead, hreach⟩ := Relation.TransGen.head'_iff.1 hcycle
      have hnext : next ∈ [key] := (hmem key hkey next).2 ⟨.single hlead, hreach⟩
      rwa [List.mem_singleton.1 hnext] at hlead
  | first :: second :: rest, hkey =>
    refine iff_of_true rfl ?_
    have hnodup := (List.nodup_flatten.1 h.nodup).1 _ hcomponent
    obtain ⟨other, hother, hne⟩ : ∃ other ∈ first :: second :: rest, other ≠ key := by
      by_cases hfirst : first = key
      · refine ⟨second, by simp, ?_⟩
        rintro rfl
        simp [hfirst] at hnodup
      · exact ⟨first, by simp, hfirst⟩
    exact ((hmem key hkey other).1 hother).onCycle hne

theorem StrongComponents.mem_membersOf (h : edges.StrongComponents components) :
    key ∈ edges.membersOf components ↔ edges.OnCycle key := by
  simp only [membersOf, List.mem_mergeSort, List.mem_flatten, List.mem_filter]
  constructor
  · rintro ⟨component, ⟨hcomponent, hcyclic⟩, hkey⟩
    exact (h.isCyclic_iff hcomponent hkey).1 hcyclic
  · intro hcycle
    obtain ⟨next, hlead, -⟩ := Relation.TransGen.head'_iff.1 hcycle
    obtain ⟨component, hcomponent, hkey⟩ := List.mem_flatten.1 (h.covers key (mem_of_leads hlead))
    exact ⟨component, ⟨hcomponent, (h.isCyclic_iff hcomponent hkey).2 hcycle⟩, hkey⟩

/-- **The cycle members are those of the components** that go round in a cycle. -/
theorem StrongComponents.membersOf_eq (h : edges.StrongComponents components) :
    edges.membersOf components = edges.cycleMembers := by
  have hnodup : (edges.membersOf components).Nodup := by
    refine (List.mergeSort_perm _ _).nodup_iff.2 (List.Nodup.sublist ?_ h.nodup)
    exact List.filter_sublist.flatten
  have hsorted : (edges.membersOf components).Pairwise (· ≤ ·) :=
    List.pairwise_mergeSort' (· ≤ ·) _
  refine eq_of_ascending ?_ (ascending_cycleMembers edges) fun key => ?_
  · exact (hsorted.and hnodup).imp fun h => lt_of_le_of_ne h.1 h.2
  · exact h.mem_membersOf.trans mem_cycleMembers.symm

/-! ## Induced edges -/

/-- The edges between keys of a list. -/
def within (edges : Edges) (keys : List String) : Edges :=
  edges.filterMap fun key targets =>
    if key ∈ keys then some (targets.filter (· ∈ keys)) else none

theorem leads_within :
    (edges.within keys).Leads source target ↔
      edges.Leads source target ∧ source ∈ keys ∧ target ∈ keys := by
  rw [Leads, Leads, targets, targets, within, Std.ExtTreeMap.getElem?_filterMap']
  cases edges[source]? with
  | none => simp
  | some targets =>
    by_cases hsource : source ∈ keys <;> simp [hsource]

/-- Where the list is closed under the edges, its cycles are the cycles of all edges. -/
theorem onCycle_within (hclosed : edges.Closed keys) :
    (edges.within keys).OnCycle key ↔ edges.OnCycle key ∧ key ∈ keys := by
  constructor
  · intro hcycle
    obtain ⟨next, hlead, -⟩ := Relation.TransGen.head'_iff.1 hcycle
    have hmono : (edges.within keys).Leads ≤ edges.Leads := fun _ _ h => (leads_within.1 h).1
    exact ⟨Relation.TransGen.mono hmono key key hcycle, (leads_within.1 hlead).2.1⟩
  · rintro ⟨hcycle, hkey⟩
    -- a walk from a key of the list does not leave it
    have hwalk : ∀ {target}, Relation.TransGen edges.Leads key target →
        Relation.TransGen (edges.within keys).Leads key target ∧ target ∈ keys := by
      intro target hwalk
      induction hwalk with
      | single hlead =>
        have htarget := hclosed key hkey _ hlead
        exact ⟨.single (leads_within.2 ⟨hlead, hkey, htarget⟩), htarget⟩
      | tail _ hlead ih =>
        have htarget := hclosed _ ih.2 _ hlead
        exact ⟨ih.1.tail (leads_within.2 ⟨hlead, ih.2, htarget⟩), htarget⟩
    exact (hwalk hcycle).1

/-- **The cycle members within a closed list** are those of all edges that are in the list. -/
theorem cycleMembers_within (hclosed : edges.Closed keys) :
    (edges.within keys).cycleMembers = edges.cycleMembers.filter (· ∈ keys) := by
  refine eq_of_ascending (ascending_cycleMembers _) ((ascending_cycleMembers edges).filter _)
    fun key => ?_
  rw [mem_cycleMembers, onCycle_within hclosed, List.mem_filter, mem_cycleMembers,
    decide_eq_true_iff]

end Edges

namespace Graph

/-- **A graph is refused exactly for its cycles.** It is accepted if and only if no walk of at least
one step along its dependencies leads from a key back to itself, and otherwise the error names the
keys that such a walk leads back to themselves, and no others, in ascending order and each once. The
named keys are those that are read off the strong components of the dependencies. -/
theorem refused_exactly_for_cycles (g : Graph) :
    (g.checkAcyclic = .ok () ↔ ∀ key, ¬ g.dependencies.OnCycle key) ∧
    ∀ cause, g.checkAcyclic = .error cause → ∃ cells, cause = .cycle cells ∧
      cells.Pairwise (· < ·) ∧
      (∀ key, key ∈ cells ↔ g.dependencies.OnCycle key) ∧
      ∀ components, g.dependencies.StrongComponents components →
        cells = g.dependencies.membersOf components := by
  refine ⟨checkAcyclic_eq_ok_iff, fun cause hcause => ?_⟩
  obtain ⟨-, rfl⟩ := checkAcyclic_eq_error_iff.1 hcause
  exact ⟨_, rfl, Edges.ascending_cycleMembers _, fun key => Edges.mem_cycleMembers,
    fun components hcomponents => hcomponents.membersOf_eq.symm⟩

/-- A pair of cells that read each other and a cell that reads itself are named, each once, and the
cell that reads them both is not. -/
theorem circle_and_self_reading_named :
    let g : Graph := ⟨∅, .ofList
      [("A1", ["B1", "B1"]), ("B1", ["A1"]), ("C1", ["C1", "A1"]), ("D1", ["C1", "E1"])], ∅⟩
    g.dependencies.StrongComponents [["D1"], ["C1"], ["B1", "A1"]] ∧
      g.checkAcyclic = .error (.cycle ["A1", "B1", "C1"]) := by
  intro g
  let level (key : String) : Nat :=
    if key = "D1" then 3 else if key = "C1" then 2 else if key = "E1" then 0 else 1
  have hcomponents : g.dependencies.StrongComponents [["D1"], ["C1"], ["B1", "A1"]] :=
    Edges.strongComponents_of_level level (by decide) (by decide +kernel) (by decide +kernel)
      (by decide +kernel) (by decide +kernel)
  have hcycle : g.dependencies.OnCycle "C1" := .single (by decide +kernel)
  obtain ⟨-, hrefused⟩ := refused_exactly_for_cycles g
  refine ⟨hcomponents, ?_⟩
  obtain ⟨cause, hcause⟩ := exists_checkAcyclic_eq_error.2 ⟨"C1", hcycle⟩
  obtain ⟨cells, rfl, hascending, -, hcells⟩ := hrefused cause hcause
  have hcyclic : ([["D1"], ["C1"], ["B1", "A1"]].filter g.dependencies.isCyclic).flatten =
      ["C1", "B1", "A1"] := by decide +kernel
  have heq : cells = ["A1", "B1", "C1"] := by
    refine eq_of_ascending hascending (by decide) fun key => ?_
    rw [hcells _ hcomponents, Edges.membersOf, hcyclic, List.mem_mergeSort]
    exact List.Perm.mem_iff (by decide)
  rw [hcause, heq]

end Graph

end Spreadsheet
