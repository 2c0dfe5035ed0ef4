import Mathlib.Order.Bounds.Defs
import Spreadsheet.Proofs.Graph.Reach

/-! # Walks
A **walk** follows edges from key to key, and its length is the number of its steps. A key reaches
what some walk from it ends at, and it is on a cycle if a walk with a step brings it back. What is
reached from some roots is reached from what they reach, by walks that are no longer than those from
the roots themselves; and where a cycle is reached, there are walks of any length. -/

namespace Spreadsheet

namespace Edges

/-- There is a walk of so many steps from one key to another. -/
inductive Walk (edges : Edges) : Nat → String → String → Prop
  /-- Staying at a key takes no step. -/
  | nil (key : String) : edges.Walk 0 key key
  /-- A walk goes on from where its first step ends. -/
  | cons {n : Nat} {source next target : String} (hlead : edges.Leads source next)
      (hrest : edges.Walk n next target) : edges.Walk (n + 1) source target

/-- The lengths of the walks to a key from the keys of a list. -/
def lengthsTo (edges : Edges) (sources : List String) (key : String) : Set Nat :=
  {n | ∃ source ∈ sources, edges.Walk n source key}

variable {edges : Edges} {sources roots : List String} {source target next key : String} {m n : Nat}

theorem Walk.append (h : edges.Walk m source next) (hrest : edges.Walk n next target) :
    edges.Walk (m + n) source target := by
  induction h with
  | nil => rwa [Nat.zero_add]
  | cons hlead _ ih =>
    rw [Nat.add_right_comm]
    exact .cons hlead (ih hrest)

/-- A walk goes on where an edge leads from its end. -/
theorem Walk.concat (h : edges.Walk n source key) (hlead : edges.Leads key target) :
    edges.Walk (n + 1) source target :=
  h.append (.cons hlead (.nil target))

/-- The last step of a walk leads to its end. -/
theorem Walk.exists_concat (h : edges.Walk (n + 1) source target) :
    ∃ key, edges.Walk n source key ∧ edges.Leads key target := by
  generalize hm : n + 1 = m at h
  induction h generalizing n with
  | nil => exact absurd hm n.succ_ne_zero
  | @cons m source next target hlead hrest ih =>
    obtain rfl := Nat.succ.inj hm
    cases n with
    | zero =>
      cases hrest
      exact ⟨source, .nil source, hlead⟩
    | succ n =>
      obtain ⟨key, hwalk, hlast⟩ := ih rfl
      exact ⟨key, .cons hlead hwalk, hlast⟩

theorem reaches_iff_exists_walk : edges.Reaches source target ↔ ∃ n, edges.Walk n source target := by
  constructor
  · intro hreach
    induction hreach with
    | refl => exact ⟨0, .nil source⟩
    | tail _ hlead ih =>
      obtain ⟨n, hwalk⟩ := ih
      exact ⟨n + 1, hwalk.concat hlead⟩
  · rintro ⟨n, hwalk⟩
    induction hwalk with
    | nil => exact .refl
    | cons hlead _ ih => exact .head hlead ih

/-- A walk of positive length has a step and the rest. -/
theorem transGen_iff_exists_walk :
    Relation.TransGen edges.Leads source target ↔ ∃ n, edges.Walk (n + 1) source target := by
  rw [Relation.TransGen.head'_iff]
  constructor
  · rintro ⟨next, hlead, hreach⟩
    obtain ⟨n, hwalk⟩ := reaches_iff_exists_walk.1 hreach
    exact ⟨n, .cons hlead hwalk⟩
  · rintro ⟨n, hwalk⟩
    cases hwalk with
    | cons hlead hrest => exact ⟨_, hlead, reaches_iff_exists_walk.2 ⟨n, hrest⟩⟩

theorem onCycle_iff_exists_walk : edges.OnCycle key ↔ ∃ n, edges.Walk (n + 1) key key :=
  transGen_iff_exists_walk

/-- **No walk to a key on a cycle is the longest one.** -/
theorem OnCycle.not_isGreatest (h : edges.OnCycle key) :
    ¬ IsGreatest (edges.lengthsTo sources key) n := by
  rintro ⟨⟨source, hsource, hwalk⟩, hgreatest⟩
  -- the walk goes once more round the cycle
  obtain ⟨m, hround⟩ := onCycle_iff_exists_walk.1 h
  have hle : n + (m + 1) ≤ n := hgreatest ⟨source, hsource, hwalk.append hround⟩
  omega

/-- **The longest walk from what the roots reach** starts at a root. -/
theorem isGreatest_lengthsTo_of_reachable
    (h : IsGreatest (edges.lengthsTo (edges.reachable roots) key) n) :
    IsGreatest (edges.lengthsTo roots key) n := by
  obtain ⟨⟨source, hsource, hwalk⟩, hgreatest⟩ := h
  obtain ⟨root, hroot, hreach⟩ := mem_reachable.1 hsource
  obtain ⟨m, hbefore⟩ := reaches_iff_exists_walk.1 hreach
  -- what leads from the root to the source has no step, or the whole walk would be longer
  have hself : ∀ root ∈ roots, root ∈ edges.reachable roots := fun root hroot =>
    mem_reachable.2 ⟨root, hroot, .refl⟩
  have hle : m + n ≤ n := hgreatest ⟨root, hself root hroot, hbefore.append hwalk⟩
  obtain rfl : m = 0 := by omega
  refine ⟨⟨root, hroot, Nat.zero_add n ▸ hbefore.append hwalk⟩, ?_⟩
  rintro k ⟨other, hother, hlonger⟩
  exact hgreatest ⟨other, hself other hother, hlonger⟩

end Edges

end Spreadsheet
