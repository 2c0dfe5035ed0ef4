import Mathlib.Algebra.BigOperators.Fin
import Mathlib.Data.Finite.Sigma
import Mathlib.Order.Lattice.Nat
import Mathlib.SetTheory.Cardinal.NatCard
import Spreadsheet.Proofs.Graph.Walks

/-! # Routes and layers
A list can name a key more than once, and then there is more than one way to follow it. A **route**
is a walk together with the positions of its keys in the lists that name them: the position of its
start among the roots, and that of each further key among the targets of the one before. The
**layers** of some roots are the lists met on routes of equal length, first the roots and then the
targets of all keys of the layer before, in order and as often as they are listed. A layer names a
key once for each route to it, so the layers come to an end exactly if no cycle is reached. -/

namespace Spreadsheet

namespace Edges

/-- The routes of so many steps from the entries of a list to a key. -/
def Route (edges : Edges) : Nat → List String → String → Type
  | 0, keys, key => { i : Fin keys.length // keys[i] = key }
  | n + 1, keys, key => (i : Fin keys.length) × Route edges n (edges.targets keys[i]) key

/-- The keys that so many steps lead to from the entries of a list, once for each way. -/
def layer (edges : Edges) : Nat → List String → List String
  | 0, keys => keys
  | n + 1, keys => edges.layer n (keys.flatMap edges.targets)

variable {edges : Edges} {keys roots : List String} {key source : String} {m n : Nat}

/-! ## Routes are walks that are counted -/

instance (edges : Edges) (n : Nat) (keys : List String) (key : String) :
    Finite (edges.Route n keys key) := by
  induction n generalizing keys with
  | zero => exact inferInstanceAs (Finite { i : Fin keys.length // keys[i] = key })
  | succ n ih =>
    have (i : Fin keys.length) : Finite (edges.Route n (edges.targets keys[i]) key) := ih _
    exact inferInstanceAs (Finite ((i : Fin keys.length) × edges.Route n (edges.targets keys[i]) key))

/-- Some route leads to a key exactly if some walk of that length does. -/
theorem nonempty_route : Nonempty (edges.Route n keys key) ↔ n ∈ edges.lengthsTo keys key := by
  induction n generalizing keys with
  | zero =>
    constructor
    · rintro ⟨i, hi⟩
      exact ⟨key, hi ▸ List.getElem_mem i.isLt, .nil key⟩
    · rintro ⟨source, hsource, hwalk⟩
      cases hwalk
      obtain ⟨i, hi, hkey⟩ := List.mem_iff_getElem.1 hsource
      exact ⟨⟨⟨i, hi⟩, hkey⟩⟩
  | succ n ih =>
    constructor
    · rintro ⟨i, route⟩
      obtain ⟨next, hnext, hwalk⟩ := ih.1 ⟨route⟩
      exact ⟨keys[i], List.getElem_mem i.isLt, .cons hnext hwalk⟩
    · rintro ⟨source, hsource, hwalk⟩
      obtain ⟨i, hi, rfl⟩ := List.mem_iff_getElem.1 hsource
      cases hwalk with
      | @cons _ _ next _ hlead hrest =>
        obtain ⟨route⟩ := ih.2 ⟨next, hlead, hrest⟩
        exact ⟨⟨i, hi⟩, route⟩

/-- The routes without a step are the positions of a key. -/
theorem card_route_zero (keys : List String) (key : String) :
    Nat.card (edges.Route 0 keys key) = keys.count key := by
  change Nat.card { i : Fin keys.length // keys[i] = key } = _
  rw [Nat.card_eq_fintype_card, Fintype.card_subtype, Finset.card_filter]
  refine (Fin.sum_univ_fun_getElem keys fun other => if other = key then 1 else 0).trans ?_
  induction keys with
  | nil => rfl
  | cons head rest ih =>
    rw [List.map_cons, List.sum_cons, ih, List.count_cons, Nat.add_comm]
    simp only [beq_iff_eq]

/-- A route with a step starts at one of the entries of the list and goes on from its targets. -/
theorem card_route_succ (keys : List String) (key : String) :
    Nat.card (edges.Route (n + 1) keys key) =
      (keys.map fun source => Nat.card (edges.Route n (edges.targets source) key)).sum := by
  change Nat.card ((i : Fin keys.length) × edges.Route n (edges.targets keys[i]) key) = _
  rw [Nat.card_sigma]
  exact Fin.sum_univ_fun_getElem keys fun source => Nat.card (edges.Route n (edges.targets source) key)

/-- The routes from two lists, one after the other, are those from the one and the other. -/
theorem card_route_append (keys others : List String) (key : String) :
    Nat.card (edges.Route n (keys ++ others) key) =
      Nat.card (edges.Route n keys key) + Nat.card (edges.Route n others key) := by
  cases n with
  | zero => simp only [card_route_zero, List.count_append]
  | succ n => simp only [card_route_succ, List.map_append, List.sum_append]

/-- A route with a step goes on from the targets of the list. -/
theorem card_route_flatMap (keys : List String) (key : String) :
    Nat.card (edges.Route n (keys.flatMap edges.targets) key) =
      Nat.card (edges.Route (n + 1) keys key) := by
  rw [card_route_succ]
  induction keys with
  | nil =>
    cases n with
    | zero => exact card_route_zero [] key
    | succ n => exact card_route_succ [] key
  | cons source rest ih =>
    rw [List.flatMap_cons, card_route_append, ih, List.map_cons, List.sum_cons]

/-! ## Layers -/

/-- **A layer names a key once for each route to it.** -/
theorem count_layer (edges : Edges) (n : Nat) (keys : List String) (key : String) :
    (edges.layer n keys).count key = Nat.card (edges.Route n keys key) := by
  induction n generalizing keys with
  | zero => rw [layer, card_route_zero]
  | succ n ih => rw [layer, ih, card_route_flatMap]

/-- A layer names the keys that walks of its length end at. -/
theorem mem_layer : key ∈ edges.layer n keys ↔ n ∈ edges.lengthsTo keys key := by
  rw [← List.count_pos_iff, count_layer, Nat.card_pos_iff, nonempty_route]
  exact and_iff_left inferInstance

/-- A layer has the targets of all keys of the layer before. -/
theorem layer_succ (edges : Edges) (n : Nat) (keys : List String) :
    edges.layer (n + 1) keys = (edges.layer n keys).flatMap edges.targets := by
  induction n generalizing keys with
  | zero => rfl
  | succ n ih => rw [layer, ih, layer]

/-- After an empty layer all layers are empty. -/
theorem layer_eq_nil_of_le (h : edges.layer m keys = []) (hle : m ≤ n) :
    edges.layer n keys = [] := by
  induction n, hle using Nat.le_induction with
  | base => exact h
  | succ n _ ih => rw [layer_succ, ih, List.flatMap_nil]

/-- What a walk from some keys ends at is within reach of them. -/
theorem exists_reaches_of_mem_lengthsTo (h : n ∈ edges.lengthsTo keys key) :
    ∃ root ∈ keys, edges.Reaches root key := by
  obtain ⟨root, hroot, hwalk⟩ := h
  exact ⟨root, hroot, reaches_iff_exists_walk.2 ⟨n, hwalk⟩⟩

/-- **Where no cycle is reached walks are no longer than their start is high.** -/
theorem Walk.le_height {target : String} (h : edges.Walk n source target)
    (hfree : ∀ key, edges.Reaches source key → ¬ edges.OnCycle key) : n ≤ edges.height source := by
  induction h with
  | nil => exact Nat.zero_le _
  | @cons n source next _ hlead _ ih =>
    have hnext := ih fun key hreach => hfree key (.head hlead hreach)
    have hdrop := height_lt (hfree source .refl) hlead
    omega

/-- Where a cycle is reached no layer is empty. -/
theorem layer_ne_nil_of_onCycle (hreach : ∃ root ∈ roots, edges.Reaches root key)
    (hcycle : edges.OnCycle key) (n : Nat) : edges.layer n roots ≠ [] := by
  intro hnil
  obtain ⟨root, hroot, hreach⟩ := hreach
  obtain ⟨m, hwalk⟩ := reaches_iff_exists_walk.1 hreach
  -- if the layers ended there would be a longest walk to the key
  have hbound : n ∈ upperBounds (edges.lengthsTo roots key) := by
    intro k hk
    by_contra hlt
    rw [← mem_layer, layer_eq_nil_of_le hnil (by omega)] at hk
    exact List.not_mem_nil hk
  have hmem := Nat.sSup_mem (s := edges.lengthsTo roots key) ⟨m, root, hroot, hwalk⟩ ⟨n, hbound⟩
  exact hcycle.not_isGreatest ⟨hmem, fun k hk => le_csSup ⟨n, hbound⟩ hk⟩

/-- **The layers come to an end** exactly if no cycle is reached, and then there are no more of them
than keys with targets and one. -/
theorem layer_size_succ_eq_nil_iff : edges.layer (edges.size + 1) roots = [] ↔
    ∀ key, (∃ root ∈ roots, edges.Reaches root key) → ¬ edges.OnCycle key := by
  constructor
  · exact fun hnil key hreach hcycle => layer_ne_nil_of_onCycle hreach hcycle _ hnil
  · intro hfree
    refine List.eq_nil_iff_forall_not_mem.2 fun key hkey => ?_
    obtain ⟨root, hroot, hwalk⟩ := mem_layer.1 hkey
    have hlength := hwalk.le_height fun key hreach => hfree key ⟨root, hroot, hreach⟩
    have hheight := edges.height_le_size root
    omega

/-- Some layer is empty exactly if no cycle is reached. -/
theorem exists_layer_eq_nil_iff : (∃ n, edges.layer n roots = []) ↔
    ∀ key, (∃ root ∈ roots, edges.Reaches root key) → ¬ edges.OnCycle key := by
  constructor
  · rintro ⟨n, hnil⟩ key hreach hcycle
    exact layer_ne_nil_of_onCycle hreach hcycle n hnil
  · exact fun hfree => ⟨_, layer_size_succ_eq_nil_iff.2 hfree⟩

end Edges

end Spreadsheet
