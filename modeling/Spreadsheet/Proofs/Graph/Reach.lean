import Mathlib.Logic.Relation
import Mathlib.Tactic.ByContra
import Spreadsheet.Graph.Basic

/-! # What a search along edges finds
A key **leads** to its targets and **reaches** what a walk of any length ends at. `explore` lists
what its queue reaches, each key once, so `reachable` and `cycleMembers` are exact: the first lists
the keys that the roots reach, breadth first, the second those that a walk of positive length brings
back to themselves. On **acyclic** edges the **height** of a key, the number of keys with an entry
among those it reaches, drops along every edge; it bounds the length of walks and makes induction
along edges possible. -/

namespace Spreadsheet

/-- The keys of a map are listed in ascending order. -/
theorem KeyMap.ascending_keys {α : Type} (m : KeyMap α) : m.keys.Pairwise (· < ·) :=
  (Std.ExtTreeMap.ordered_keys (t := m)).imp fun h => compareOfLessAndEq_eq_lt.1 h

namespace Edges

/-- A set of one key has that key. -/
theorem mem_singleton_keySet {key other : String} : other ∈ ({key} : KeySet) ↔ other = key := by
  rw [show ({key} : KeySet) = (∅ : KeySet).insert key from rfl, Std.ExtTreeSet.mem_insert,
    Std.LawfulEqCmp.compare_eq_iff_eq, or_iff_left Std.ExtTreeSet.not_mem_empty, eq_comm]

/-- A key leads to each of its targets. -/
def Leads (edges : Edges) (source target : String) : Prop := target ∈ edges.targets source

instance (edges : Edges) (source target : String) : Decidable (edges.Leads source target) :=
  inferInstanceAs (Decidable (target ∈ edges.targets source))

/-- A key reaches what a walk from it ends at, itself included. -/
abbrev Reaches (edges : Edges) : String → String → Prop := Relation.ReflTransGen edges.Leads

/-- A key is on a cycle if a walk of positive length brings it back to itself. -/
def OnCycle (edges : Edges) (key : String) : Prop := Relation.TransGen edges.Leads key key

/-- No key is on a cycle. -/
def Acyclic (edges : Edges) : Prop := ∀ key, ¬ edges.OnCycle key

/-- A list has whatever its keys lead to. -/
def Closed (edges : Edges) (keys : List String) : Prop :=
  ∀ source ∈ keys, ∀ target ∈ edges.targets source, target ∈ keys

instance (edges : Edges) (keys : List String) : Decidable (edges.Closed keys) :=
  inferInstanceAs (Decidable (∀ source ∈ keys, ∀ target ∈ edges.targets source, target ∈ keys))

variable {edges : Edges} {seen : KeySet} {queue roots : List String} {key : String}

/-- What is reached from a closed list is in the list. -/
theorem Closed.mem_of_reaches {keys : List String} {source target : String}
    (hclosed : edges.Closed keys) (hsource : source ∈ keys) (hreach : edges.Reaches source target) :
    target ∈ keys := by
  induction hreach with
  | refl => exact hsource
  | tail _ hlead ih => exact hclosed _ ih _ hlead

/-- A key that leads somewhere has an entry. -/
theorem mem_of_leads {target : String} (h : edges.Leads key target) : key ∈ edges := by
  by_contra hkey
  rw [Leads, targets_of_not_mem hkey] at h
  exact List.not_mem_nil h

/-! ## Exploring -/

/-- Exploring finds only what the queue reaches. -/
theorem reaches_of_mem_explore (h : key ∈ edges.explore seen queue) :
    ∃ root ∈ queue, edges.Reaches root key := by
  fun_induction explore edges seen queue with
  | case1 => exact absurd h List.not_mem_nil
  | case2 seen head queue _ ih =>
    obtain ⟨root, hroot, hreach⟩ := ih h
    exact ⟨root, List.mem_cons_of_mem head hroot, hreach⟩
  | case3 seen head queue _ ih =>
    rcases List.mem_cons.1 h with rfl | h
    · exact ⟨key, List.mem_cons_self, .refl⟩
    · obtain ⟨root, hroot, hreach⟩ := ih h
      -- the targets of the head are queued on its behalf
      rcases List.mem_append.1 hroot with hroot | hroot
      · exact ⟨root, List.mem_cons_of_mem head hroot, hreach⟩
      · exact ⟨head, List.mem_cons_self, .head hroot hreach⟩

/-- Exploring leaves out what was seen before. -/
theorem not_mem_seen_of_mem_explore (h : key ∈ edges.explore seen queue) : key ∉ seen := by
  fun_induction explore edges seen queue with
  | case1 => exact absurd h List.not_mem_nil
  | case2 seen head queue _ ih => exact ih h
  | case3 seen head queue hhead ih =>
    rcases List.mem_cons.1 h with rfl | h
    · exact hhead
    · exact fun hseen => ih h (Std.ExtTreeSet.mem_insert.2 (.inr hseen))

/-- Exploring lists each key once. -/
theorem nodup_explore (edges : Edges) (seen : KeySet) (queue : List String) :
    (edges.explore seen queue).Nodup := by
  fun_induction explore edges seen queue with
  | case1 => exact List.nodup_nil
  | case2 seen head queue _ ih => exact ih
  | case3 seen head queue _ ih =>
    refine List.nodup_cons.2 ⟨fun h => ?_, ih⟩
    exact not_mem_seen_of_mem_explore h Std.ExtTreeSet.mem_insert_self

/-- Exploring misses no key of the queue that was not seen before. -/
theorem mem_explore_of_mem_queue (h : key ∈ queue) :
    key ∈ seen ∨ key ∈ edges.explore seen queue := by
  fun_induction explore edges seen queue with
  | case1 => exact absurd h List.not_mem_nil
  | case2 seen head queue hhead ih =>
    rcases List.mem_cons.1 h with rfl | h
    · exact .inl hhead
    · exact ih h
  | case3 seen head queue _ ih =>
    rcases List.mem_cons.1 h with rfl | h
    · exact .inr List.mem_cons_self
    -- the key can be the head once more, which counts as seen from here on but is listed
    · rcases ih (List.mem_append_left _ h) with h | h
      · rcases Std.ExtTreeSet.mem_insert.1 h with h | h
        · exact .inr (Std.LawfulEqCmp.eq_of_compare h ▸ List.mem_cons_self)
        · exact .inl h
      · exact .inr (List.mem_cons_of_mem _ h)

/-- What exploring finds is closed under the edges, up to what was seen before. -/
theorem mem_explore_of_leads {target : String} (h : key ∈ edges.explore seen queue)
    (hlead : edges.Leads key target) : target ∈ seen ∨ target ∈ edges.explore seen queue := by
  fun_induction explore edges seen queue with
  | case1 => exact absurd h List.not_mem_nil
  | case2 seen head queue _ ih => exact ih h
  | case3 seen head queue _ ih =>
    have hrest : target ∈ seen.insert head ∨
        target ∈ edges.explore (seen.insert head) (queue ++ edges.targets head) := by
      rcases List.mem_cons.1 h with rfl | h
      · exact mem_explore_of_mem_queue (List.mem_append_right _ hlead)
      · exact ih h
    rcases hrest with h | h
    · rcases Std.ExtTreeSet.mem_insert.1 h with h | h
      · exact .inr (Std.LawfulEqCmp.eq_of_compare h ▸ List.mem_cons_self)
      · exact .inl h
    · exact .inr (List.mem_cons_of_mem _ h)

/-- **The reachable keys** are those that some root reaches. -/
theorem mem_reachable : key ∈ edges.reachable roots ↔ ∃ root ∈ roots, edges.Reaches root key := by
  refine ⟨reaches_of_mem_explore, ?_⟩
  rintro ⟨root, hroot, hreach⟩
  induction hreach with
  | refl => exact (mem_explore_of_mem_queue hroot).resolve_left Std.ExtTreeSet.not_mem_empty
  | tail _ hlead ih =>
    exact (mem_explore_of_leads ih hlead).resolve_left Std.ExtTreeSet.not_mem_empty

/-- The reachable keys are listed once each. -/
theorem nodup_reachable (edges : Edges) (roots : List String) : (edges.reachable roots).Nodup :=
  nodup_explore edges ∅ roots

/-- The reachable keys are closed under the edges. -/
theorem closed_reachable (edges : Edges) (roots : List String) :
    edges.Closed (edges.reachable roots) := fun _ hkey _ hlead =>
  (mem_explore_of_leads hkey hlead).resolve_left Std.ExtTreeSet.not_mem_empty

/-- Keys that lead nowhere are explored as they are queued. -/
theorem explore_of_targets_eq_nil (htargets : ∀ key ∈ queue, edges.targets key = [])
    (hnodup : queue.Nodup) (hseen : ∀ key ∈ queue, key ∉ seen) :
    edges.explore seen queue = queue := by
  induction queue generalizing seen with
  | nil => rw [explore]
  | cons head queue ih =>
    obtain ⟨hhead, hnodup⟩ := List.nodup_cons.1 hnodup
    rw [explore, if_neg (hseen head List.mem_cons_self), htargets head List.mem_cons_self,
      List.append_nil, ih (fun key hkey => htargets key (List.mem_cons_of_mem head hkey)) hnodup]
    intro key hkey hinsert
    rcases Std.ExtTreeSet.mem_insert.1 hinsert with heq | hkeyseen
    · exact hhead (Std.LawfulEqCmp.eq_of_compare heq ▸ hkey)
    · exact hseen key (List.mem_cons_of_mem head hkey) hkeyseen

/-- Whatever exploring finds was queued, or something that it finds leads there. -/
theorem mem_queue_or_leads_of_mem_explore (h : key ∈ edges.explore seen queue) :
    key ∈ queue ∨ ∃ source ∈ edges.explore seen queue, edges.Leads source key := by
  fun_induction explore edges seen queue with
  | case1 => exact absurd h List.not_mem_nil
  | case2 seen head queue _ ih => exact (ih h).imp_left (List.mem_cons_of_mem head)
  | case3 seen head queue _ ih =>
    rcases List.mem_cons.1 h with rfl | h
    · exact .inl List.mem_cons_self
    · rcases ih h with hqueue | ⟨source, hsource, hlead⟩
      · rcases List.mem_append.1 hqueue with hqueue | hlead
        · exact .inl (List.mem_cons_of_mem head hqueue)
        · exact .inr ⟨head, List.mem_cons_self, hlead⟩
      · exact .inr ⟨source, List.mem_cons_of_mem head hsource, hlead⟩

/-- Exploring depends only on where the keys that it finds lead. -/
theorem explore_congr {other : Edges}
    (h : ∀ key ∈ edges.explore seen queue, edges.targets key = other.targets key) :
    edges.explore seen queue = other.explore seen queue := by
  fun_induction explore edges seen queue with
  | case1 => rw [explore]
  | case2 seen head queue hhead ih => rw [explore, if_pos hhead, ih h]
  | case3 seen head queue hhead ih =>
    rw [explore, if_neg hhead, ← h head List.mem_cons_self,
      ih fun key hkey => h key (List.mem_cons_of_mem head hkey)]

/-! ## The order of discovery -/

/-- Exploring lists the keys of the queue and the targets of what it finds, in the order in which
these come up, each where it comes up first and without those seen before. -/
theorem explore_eq_eraseDups (edges : Edges) (seen : KeySet) (queue : List String) :
    edges.explore seen queue =
      ((queue ++ (edges.explore seen queue).flatMap edges.targets).filter (· ∉ seen)).eraseDups := by
  fun_induction explore edges seen queue with
  | case1 => rfl
  | case2 seen head queue hhead ih =>
    rw [List.cons_append, List.filter_cons_of_neg (by simpa using hhead)]
    exact ih
  | case3 seen head queue hhead ih =>
    have hrest : ∀ other : String, decide (other ∉ seen.insert head) =
        (!(other == head) && decide (other ∉ seen)) := by
      intro other
      rw [Bool.eq_iff_iff]
      simp [Std.ExtTreeSet.mem_insert, eq_comm (a := head)]
    rw [List.cons_append, List.flatMap_cons, List.filter_cons_of_pos (by simpa using hhead),
      List.eraseDups_cons, List.filter_filter, ← List.append_assoc]
    simp only [← hrest]
    rw [← ih]

/-- **Breadth-first discovery**: the reachable keys are the roots, and then the targets of each
reachable key in turn, each key where it comes up first. -/
theorem reachable_eq_eraseDups (edges : Edges) (roots : List String) :
    edges.reachable roots = (roots ++ (edges.reachable roots).flatMap edges.targets).eraseDups := by
  have h := explore_eq_eraseDups edges ∅ roots
  rwa [List.filter_eq_self.2 fun key _ => by simp] at h

/-! ## Beyond a key -/

/-- A key and what lies beyond it are closed under the edges. -/
theorem mem_cons_beyond_of_leads {source target : String} (h : source ∈ key :: edges.beyond key)
    (hlead : edges.Leads source target) : target ∈ key :: edges.beyond key := by
  have hfound : target ∈ ({key} : KeySet) ∨ target ∈ edges.beyond key := by
    rcases List.mem_cons.1 h with rfl | hsource
    · exact mem_explore_of_mem_queue hlead
    · exact mem_explore_of_leads hsource hlead
  rcases hfound with hkey | hbeyond
  · exact mem_singleton_keySet.1 hkey ▸ List.mem_cons_self
  · exact List.mem_cons_of_mem key hbeyond

/-- A key leads to whatever lies beyond it, or something beyond it does. -/
theorem exists_leads_of_mem_beyond {target : String} (h : target ∈ edges.beyond key) :
    ∃ source ∈ key :: edges.beyond key, edges.Leads source target := by
  rcases mem_queue_or_leads_of_mem_explore h with hlead | ⟨source, hsource, hlead⟩
  · exact ⟨key, List.mem_cons_self, hlead⟩
  · exact ⟨source, List.mem_cons_of_mem key hsource, hlead⟩

/-- What lies beyond a key depends only on where it and the keys beyond it lead. -/
theorem beyond_congr {other : Edges}
    (h : ∀ source ∈ key :: edges.beyond key, edges.targets source = other.targets source) :
    edges.beyond key = other.beyond key := by
  rw [beyond, beyond, ← h key List.mem_cons_self]
  exact explore_congr fun source hsource => h source (List.mem_cons_of_mem key hsource)

/-! ## Cycles -/

/-- **The cycle members** are the keys on a cycle. -/
theorem mem_cycleMembers : key ∈ edges.cycleMembers ↔ edges.OnCycle key := by
  rw [cycleMembers, List.mem_filter, decide_eq_true_iff, mem_reachable, OnCycle,
    Relation.TransGen.head'_iff]
  refine ⟨And.right, fun h => ⟨?_, h⟩⟩
  -- a walk of positive length starts with an edge, so its key has an entry
  obtain ⟨target, hlead, -⟩ := h
  exact Std.ExtTreeMap.mem_keys.2 (mem_of_leads hlead)

theorem cycleMembers_eq_nil : edges.cycleMembers = [] ↔ edges.Acyclic := by
  rw [List.eq_nil_iff_forall_not_mem]
  exact forall_congr' fun key => not_congr mem_cycleMembers

/-- The keys on cycles are listed in ascending order. -/
theorem ascending_cycleMembers (edges : Edges) : edges.cycleMembers.Pairwise (· < ·) :=
  (KeyMap.ascending_keys edges).filter _

/-- A walk along edges is a walk, backwards, along edges that list them backwards. -/
theorem transGen_of_transposed {forward backward : Edges} {source target : String}
    (h : ∀ source target, forward.Leads source target ↔ backward.Leads target source) :
    Relation.TransGen forward.Leads source target ↔
      Relation.TransGen backward.Leads target source := by
  have hswap : forward.Leads = Function.swap backward.Leads := by
    funext source target
    exact propext (h source target)
  rw [hswap, Relation.transGen_swap]

/-- Edges that list the edges of others backwards have the same cycles. -/
theorem onCycle_of_transposed {forward backward : Edges}
    (h : ∀ source target, forward.Leads source target ↔ backward.Leads target source) :
    forward.OnCycle key ↔ backward.OnCycle key :=
  transGen_of_transposed h

/-! ## Heights -/

/-- The number of keys with an entry that a key reaches. -/
def height (edges : Edges) (key : String) : Nat :=
  edges.keys.countP (· ∈ edges.reachable [key])

theorem height_le_size (edges : Edges) (key : String) : edges.height key ≤ edges.size := by
  rw [← Std.ExtTreeMap.length_keys]
  exact List.countP_le_length

/-- **Heights drop along the edges of a key that is not on a cycle.** -/
theorem height_lt {target : String} (hkey : ¬ edges.OnCycle key)
    (hlead : edges.Leads key target) : edges.height target < edges.height key := by
  -- everything that the target reaches the key reaches too, and the key itself only the key
  refine countP_lt_countP (a := key) ?_ (Std.ExtTreeMap.mem_keys.2 (mem_of_leads hlead)) ?_ ?_
  · intro other _ h
    simp only [decide_eq_true_eq, mem_reachable, List.mem_singleton, exists_eq_left] at h ⊢
    exact .head hlead h
  · simp only [decide_eq_false_iff_not, mem_reachable, List.mem_singleton, exists_eq_left]
    exact fun h => hkey (.head' hlead h)
  · simp only [decide_eq_true_eq, mem_reachable, List.mem_singleton, exists_eq_left]
    exact .refl

/-- Heights drop along acyclic edges. -/
theorem Acyclic.height_lt {target : String} (hacyclic : edges.Acyclic)
    (hlead : edges.Leads key target) : edges.height target < edges.height key :=
  Edges.height_lt (hacyclic key) hlead

/-- Edges along which some rank of the keys drops are acyclic. -/
theorem acyclic_of_rank (rank : String → Nat)
    (h : ∀ key ∈ edges.keys, ∀ target ∈ edges.targets key, rank target < rank key) :
    edges.Acyclic := by
  have hdrop : ∀ {source target}, edges.Leads source target → rank target < rank source :=
    fun hlead => h _ (Std.ExtTreeMap.mem_keys.2 (mem_of_leads hlead)) _ hlead
  have hwalk : ∀ {source target}, Relation.TransGen edges.Leads source target →
      rank target < rank source := by
    intro source target hwalk
    induction hwalk with
    | single hlead => exact hdrop hlead
    | tail _ hlead ih => exact Nat.lt_trans (hdrop hlead) ih
  exact fun key hcycle => Nat.lt_irrefl (rank key) (hwalk hcycle)

/-- Along acyclic edges there is an induction from the targets of a key to the key. -/
theorem Acyclic.wellFounded (hacyclic : edges.Acyclic) :
    WellFounded fun target source => edges.Leads source target :=
  Subrelation.wf hacyclic.height_lt (measure edges.height).wf

end Edges

namespace Graph

variable {g : Graph}

/-- The dependents are the dependencies backwards. -/
def Transposed (g : Graph) : Prop :=
  ∀ source reader, g.dependents.Leads source reader ↔ g.dependencies.Leads reader source

/-- A graph whose maps list each other backwards has the same cycles in both. -/
theorem Transposed.onCycle_iff {key : String} (h : g.Transposed) :
    g.dependents.OnCycle key ↔ g.dependencies.OnCycle key :=
  Edges.onCycle_of_transposed h

/-- A graph is accepted exactly when its dependencies are acyclic. -/
theorem checkAcyclic_eq_ok_iff : g.checkAcyclic = .ok () ↔ g.dependencies.Acyclic :=
  checkAcyclic_eq_ok.trans Edges.cycleMembers_eq_nil

/-- A graph that is not acyclic is refused for the keys on its cycles. -/
theorem checkAcyclic_of_not_acyclic (h : ¬ g.dependencies.Acyclic) :
    g.checkAcyclic = .error (.cycle g.dependencies.cycleMembers) := by
  rw [← Edges.cycleMembers_eq_nil] at h
  unfold checkAcyclic
  split
  · rename_i hnil
    exact absurd hnil h
  · rfl

theorem checkAcyclic_eq_error_iff {cause : SheetError} : g.checkAcyclic = .error cause ↔
    ¬ g.dependencies.Acyclic ∧ cause = .cycle g.dependencies.cycleMembers := by
  by_cases hacyclic : g.dependencies.Acyclic
  · simp [checkAcyclic_eq_ok_iff.2 hacyclic, hacyclic]
  · simp [checkAcyclic_of_not_acyclic hacyclic, hacyclic, eq_comm]

/-- A graph is refused exactly when some key is on a cycle of its dependencies. -/
theorem exists_checkAcyclic_eq_error :
    (∃ cause, g.checkAcyclic = .error cause) ↔ ∃ key, g.dependencies.OnCycle key := by
  simp [checkAcyclic_eq_error_iff, Edges.Acyclic]

end Graph

end Spreadsheet
