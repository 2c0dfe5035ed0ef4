import Mathlib.Data.List.MinMax
import Spreadsheet.Proofs.Graph.Balance
import Spreadsheet.Recalculation.Schedule

/-! # The order of a schedule
A list of keys is **in order** along edges if no key comes after one that it leads to. Taking off
ready keys layer by layer ends on acyclic edges, since a key of greatest height is always ready,
and the layers one after another are the given keys in order. So a change in an acyclic graph has
a schedule, and the schedule lists each affected cell once, after all affected cells that feed
it. -/

namespace Spreadsheet

namespace Edges

variable {edges : Edges} {keys roots : List String} {key : String}

/-- No key of a list comes after one that it leads to. -/
def InOrder (edges : Edges) (keys : List String) : Prop :=
  keys.Pairwise fun earlier later => ¬ edges.Leads later earlier

instance (edges : Edges) (keys : List String) : Decidable (edges.InOrder keys) :=
  inferInstanceAs (Decidable (keys.Pairwise fun earlier later => ¬ edges.Leads later earlier))

theorem mem_fed : key ∈ edges.fed keys ↔ ∃ source ∈ keys, edges.Leads source key := by
  simp [fed, Leads, Std.ExtTreeSet.mem_ofList]

/-- A key is ready if no key of the list leads to it. -/
theorem mem_ready :
    key ∈ edges.ready keys ↔ key ∈ keys ∧ ∀ source ∈ keys, ¬ edges.Leads source key := by
  simp [ready, mem_fed]

/-- A key is blocked if some key of the list leads to it. -/
theorem mem_blocked :
    key ∈ edges.blocked keys ↔ key ∈ keys ∧ ∃ source ∈ keys, edges.Leads source key := by
  simp [blocked, mem_fed]

theorem ready_append_blocked_perm (edges : Edges) (keys : List String) :
    (edges.ready keys ++ edges.blocked keys).Perm keys := by
  have hblocked : edges.blocked keys = keys.filter fun key => !decide (key ∉ edges.fed keys) := by
    simp [blocked]
  rw [hblocked]
  exact List.filter_append_perm _ keys

/-- **The layers list the keys in order.** -/
theorem flatten_layers? {layers : List (List String)} (h : edges.layers? keys = some layers) :
    layers.flatten.Perm keys ∧ edges.InOrder layers.flatten := by
  fun_induction layers? edges keys generalizing layers with
  | case1 keys hempty =>
    obtain rfl := Option.some.inj h
    rw [List.isEmpty_iff.1 hempty]
    exact ⟨.refl [], .nil⟩
  | case2 => exact nomatch h
  | case3 keys hempty hready ih =>
    obtain ⟨rest, hrest, rfl⟩ := Option.map_eq_some_iff.1 h
    obtain ⟨hperm, horder⟩ := ih hrest
    rw [List.flatten_cons]
    refine ⟨(hperm.append_left _).trans (ready_append_blocked_perm edges keys), ?_⟩
    -- nothing in the list leads to a ready key, so what follows a ready key does not either
    refine List.pairwise_append.2 ⟨?_, horder, ?_⟩
    · refine List.pairwise_of_forall_mem_list fun earlier hearlier later hlater => ?_
      exact (mem_ready.1 hearlier).2 later (mem_ready.1 hlater).1
    · intro earlier hearlier later hlater
      exact (mem_ready.1 hearlier).2 later (mem_blocked.1 (hperm.mem_iff.1 hlater)).1

/-- A list without a key on a cycle has a ready key, unless it is empty. -/
theorem exists_ready (hcycle : ∀ key ∈ keys, ¬ edges.OnCycle key) (hkeys : keys ≠ []) :
    ∃ key, key ∈ edges.ready keys := by
  have hsome : keys.argmax edges.height ≠ none := mt List.argmax_eq_none.1 hkeys
  -- what leads to a key of greatest height would be higher still
  obtain ⟨key, hkey⟩ := Option.ne_none_iff_exists'.1 hsome
  refine ⟨key, mem_ready.2 ⟨List.argmax_mem hkey, fun source hsource hlead => ?_⟩⟩
  exact absurd (List.le_of_mem_argmax hsource hkey) (height_lt (hcycle source hsource) hlead).not_ge

/-- **Keys none of which is on a cycle have layers.** -/
theorem exists_layers (hcycle : ∀ key ∈ keys, ¬ edges.OnCycle key) :
    ∃ layers, edges.layers? keys = some layers := by
  fun_induction layers? edges keys with
  | case1 => exact ⟨[], rfl⟩
  | case2 keys hempty hready =>
    have hkeys : keys ≠ [] := by simpa using hempty
    obtain ⟨key, hkey⟩ := exists_ready hcycle hkeys
    rw [List.isEmpty_iff.1 hready] at hkey
    exact absurd hkey List.not_mem_nil
  | case3 keys hempty hready ih =>
    obtain ⟨layers, hlayers⟩ := ih fun key hkey => hcycle key (mem_blocked.1 hkey).1
    exact ⟨_, by rw [hlayers, Option.map_some]⟩

end Edges

namespace Graph

variable {g : Graph} {roots : List String} {s : Schedule}

/-- A schedule lists the affected cells in order. -/
theorem order_of_schedule (h : g.schedule roots = .ok s) :
    s.order.Perm (g.dependents.reachable roots) ∧ g.dependents.InOrder s.order := by
  unfold schedule at h
  dsimp only at h
  split at h
  · rename_i layers hlayers
    obtain rfl := Except.ok.inj h
    exact Edges.flatten_layers? hlayers
  · exact nomatch h

/-- A change from which no cycle is reached has a schedule. -/
theorem exists_schedule_of_forall
    (hcycle : ∀ key ∈ g.dependents.reachable roots, ¬ g.dependents.OnCycle key) :
    ∃ s, g.schedule roots = .ok s := by
  obtain ⟨layers, hlayers⟩ := Edges.exists_layers hcycle
  exact ⟨⟨layers⟩, by rw [schedule, hlayers]⟩

/-- A change in an acyclic graph has a schedule. -/
theorem exists_schedule (hacyclic : g.dependents.Acyclic) (roots : List String) :
    ∃ s, g.schedule roots = .ok s :=
  exists_schedule_of_forall fun key _ => hacyclic key

/-- The scheduled cells are those that some root reaches. -/
theorem mem_order (h : g.schedule roots = .ok s) {key : String} :
    key ∈ s.order ↔ ∃ root ∈ roots, g.dependents.Reaches root key :=
  (order_of_schedule h).1.mem_iff.trans Edges.mem_reachable

/-- Each cell is scheduled once. -/
theorem nodup_order (h : g.schedule roots = .ok s) : s.order.Nodup :=
  (order_of_schedule h).1.nodup_iff.2 (Edges.nodup_reachable g.dependents roots)

/-- Cells that nothing reads are scheduled in one layer, as they are given. -/
theorem schedule_of_targets_eq_nil (hroots : roots ≠ []) (hnodup : roots.Nodup)
    (htargets : ∀ root ∈ roots, g.dependents.targets root = []) :
    g.schedule roots = .ok ⟨[roots]⟩ := by
  have hreachable : g.dependents.reachable roots = roots :=
    Edges.explore_of_targets_eq_nil htargets hnodup fun _ _ => Std.ExtTreeSet.not_mem_empty
  have hfed : ∀ key, key ∉ g.dependents.fed roots := by
    intro key hkey
    obtain ⟨source, hsource, hlead⟩ := Edges.mem_fed.1 hkey
    rw [Edges.Leads, htargets source hsource] at hlead
    exact List.not_mem_nil hlead
  have hready : g.dependents.ready roots = roots :=
    List.filter_eq_self.2 fun key _ => decide_eq_true (hfed key)
  have hblocked : g.dependents.blocked roots = [] :=
    List.filter_eq_nil_iff.2 fun key _ => by simpa using hfed key
  have hlayers : g.dependents.layers? roots = some [roots] := by
    rw [Edges.layers?, hready, hblocked, Edges.layers?]
    simp [hroots]
  rw [schedule, hreachable, hlayers]

end Graph

end Spreadsheet
