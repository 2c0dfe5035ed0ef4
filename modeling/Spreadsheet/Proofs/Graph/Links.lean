import Spreadsheet.Proofs.Graph.Reach
import Spreadsheet.Graph.Merge

/-! # Adding and removing readers
What `link` and `unlink` do to the lists of a map, one reader and one key at a time and then for
all keys that a formula reads. Neither stores an empty list and neither lists a reader twice, and
where no reader is listed twice they add and remove exactly the pair of key and reader that they
are given. -/

namespace Spreadsheet

namespace KeyMap

variable {α : Type} {m : KeyMap α} {pairs : List (String × α)} {key : String} {a : α}

/-- A map has an entry for a key exactly when looking the key up gives something. -/
theorem mem_iff : key ∈ m ↔ ∃ a, m[key]? = some a :=
  Std.ExtTreeMap.mem_iff_isSome_getElem?.trans Option.isSome_iff_exists

/-- A map with a key is not empty. -/
theorem isEmpty_eq_false (h : key ∈ m) : m.isEmpty = false :=
  Std.ExtTreeMap.isEmpty_eq_false_iff.2 fun hempty =>
    Std.ExtTreeMap.eq_empty_iff_forall_not_mem.1 hempty key h

instance {p : String → Prop} [DecidablePred p] : Decidable (∀ key ∈ m, p key) :=
  decidable_of_iff (∀ key ∈ m.keys, p key) (by simp only [Std.ExtTreeMap.mem_keys])

/-- A map has one entry per key. -/
theorem nodup_map_fst_toList (m : KeyMap α) : (m.toList.map (·.1)).Nodup := by
  rw [Std.ExtTreeMap.map_fst_toList_eq_keys]
  exact Std.ExtTreeMap.nodup_keys

/-- Pairs with different keys are distinct to a map. -/
theorem pairwise_of_nodup (h : (pairs.map (·.1)).Nodup) :
    pairs.Pairwise fun a b => ¬ compare a.1 b.1 = .eq :=
  (List.pairwise_map.1 h).imp fun hne heq => hne (Std.LawfulEqCmp.eq_of_compare heq)

/-- A map of pairs with different keys has each of them. -/
theorem getElem?_ofList (h : (pairs.map (·.1)).Nodup) (hmem : (key, a) ∈ pairs) :
    (Std.ExtTreeMap.ofList pairs : KeyMap α)[key]? = some a :=
  Std.ExtTreeMap.getElem?_ofList_of_mem Std.ReflCmp.compare_self (pairwise_of_nodup h) hmem

end KeyMap

namespace Edges

variable {edges : Edges} {source reader other key : String} {sources : List String}

/-- No key is mapped to the empty list. -/
def NoneEmpty (edges : Edges) : Prop := ∀ key : String, edges[key]? ≠ some []

/-- No list names a key twice. -/
def NoneRepeated (edges : Edges) : Prop := ∀ key, (edges.targets key).Nodup

/-- Where no list is empty, the keys with an entry are those that lead somewhere. -/
theorem NoneEmpty.mem_iff (h : edges.NoneEmpty) :
    key ∈ edges ↔ ∃ target, edges.Leads key target := by
  refine ⟨fun hkey => ?_, fun ⟨_, hlead⟩ => mem_of_leads hlead⟩
  obtain ⟨list, hlist⟩ := KeyMap.mem_iff.1 hkey
  cases list with
  | nil => exact absurd hlist (h key)
  | cons target rest => exact ⟨target, by simp [Leads, targets, hlist]⟩

/-- Where no list is empty, a lookup gives what a key leads to, if it leads anywhere. -/
theorem NoneEmpty.getElem?_eq (h : edges.NoneEmpty) (key : String) :
    edges[key]? = if (edges.targets key).isEmpty then none else some (edges.targets key) := by
  rw [targets]
  cases hlist : edges[key]? with
  | none => rfl
  | some list =>
    have hne : list ≠ [] := fun hnil => h key (hnil ▸ hlist)
    rw [Option.getD_some, if_neg (by simpa using hne)]

/-- A map without empty lists is given by what its keys lead to. -/
theorem NoneEmpty.ext {edges' : Edges} (h : edges.NoneEmpty) (h' : edges'.NoneEmpty)
    (htargets : ∀ key, edges.targets key = edges'.targets key) : edges = edges' := by
  refine Std.ExtTreeMap.ext_getElem? fun key => ?_
  rw [h.getElem?_eq, h'.getElem?_eq, htargets]

/-- A list that is stored unless it is empty is what a lookup gives. -/
theorem getD_ite_isEmpty (list : List String) :
    (if list.isEmpty then none else some list).getD [] = list := by
  split
  · rename_i hempty
    rw [Option.getD_none, List.isEmpty_iff.1 hempty]
  · rfl

/-- A list that is stored unless it is empty is not stored as the empty list. -/
theorem ite_isEmpty_ne_some_nil (list : List String) :
    (if list.isEmpty then none else some list) ≠ some [] := by
  split
  · simp
  · rename_i hfull
    exact fun h => hfull (List.isEmpty_iff.2 (Option.some.inj h))

/-! ## Adding a reader -/

theorem targets_link (edges : Edges) (source reader key : String) :
    (edges.link source reader).targets key =
      if source = key ∧ reader ∉ edges.targets key then edges.targets key ++ [reader]
      else edges.targets key := by
  by_cases h : source = key
  · subst h
    rw [targets_link_self]
    by_cases hreader : reader ∈ edges.targets source <;> simp [hreader]
  · rw [targets_link_of_ne h, if_neg fun hand => h hand.1]

/-- Listing a reader that is listed changes nothing. -/
theorem link_of_mem (h : reader ∈ edges.targets source) : edges.link source reader = edges :=
  if_pos h

theorem NoneRepeated.link (h : edges.NoneRepeated) (source reader : String) :
    (edges.link source reader).NoneRepeated := by
  intro key
  rw [targets_link]
  split
  · rename_i hnew
    exact List.nodup_append.2 ⟨h key, by simp, by grind⟩
  · exact h key

theorem NoneEmpty.link (h : edges.NoneEmpty) (source reader : String) :
    (edges.link source reader).NoneEmpty := by
  intro key
  unfold Edges.link
  split
  · exact h key
  · rw [Std.ExtTreeMap.getElem?_insert]
    split
    · simp
    · exact h key

/-! ## Removing a reader -/

theorem getElem?_unlink (edges : Edges) (source reader key : String) :
    (edges.unlink source reader)[key]? =
      if source = key then
        edges[key]?.bind fun readers =>
          if (readers.erase reader).isEmpty then none else some (readers.erase reader)
      else edges[key]? := by
  unfold unlink
  split
  · rename_i hnone
    split
    · subst key
      rw [hnone, Option.bind_none]
    · rfl
  · rename_i readers hreaders
    dsimp only
    by_cases h : source = key
    · subst h
      rw [if_pos rfl, hreaders, Option.bind_some]
      split <;> simp
    · rw [if_neg h]
      split
      · simp [Std.ExtTreeMap.getElem?_erase, h]
      · simp [Std.ExtTreeMap.getElem?_insert, h]

theorem targets_unlink (edges : Edges) (source reader key : String) :
    (edges.unlink source reader).targets key =
      if source = key then (edges.targets key).erase reader else edges.targets key := by
  rw [targets, targets, getElem?_unlink]
  split
  · cases edges[key]? with
    | none => rfl
    | some readers =>
      rw [Option.bind_some, Option.getD_some]
      exact getD_ite_isEmpty (readers.erase reader)
  · rfl

/-- Where a reader is listed once, removing it leaves it out. -/
theorem NoneRepeated.mem_targets_unlink (h : edges.NoneRepeated) :
    other ∈ (edges.unlink source reader).targets key ↔
      other ∈ edges.targets key ∧ ¬ (key = source ∧ other = reader) := by
  rw [targets_unlink]
  split
  · -- only the first occurrence is erased, and there is no other
    rw [(h key).mem_erase_iff]
    grind
  · grind

theorem NoneRepeated.unlink (h : edges.NoneRepeated) (source reader : String) :
    (edges.unlink source reader).NoneRepeated := by
  intro key
  rw [targets_unlink]
  split
  · exact (h key).erase reader
  · exact h key

theorem NoneEmpty.unlink (h : edges.NoneEmpty) (source reader : String) :
    (edges.unlink source reader).NoneEmpty := by
  intro key
  rw [getElem?_unlink]
  split
  · intro hnil
    obtain ⟨readers, -, hleft⟩ := Option.bind_eq_some_iff.1 hnil
    exact ite_isEmpty_ne_some_nil (readers.erase reader) hleft
  · exact h key

/-! ## The other readers -/

/-- Adding a reader leaves the others as they are listed. -/
theorem filter_targets_link {keep : String → Bool} (h : keep reader = false) :
    ((edges.link source reader).targets key).filter keep = (edges.targets key).filter keep := by
  rw [targets_link]
  split
  · rw [List.filter_append, List.filter_cons_of_neg (by simp [h]), List.filter_nil,
      List.append_nil]
  · rfl

/-- Removing a reader leaves the others as they are listed. -/
theorem filter_targets_unlink {keep : String → Bool} (h : keep reader = false) :
    ((edges.unlink source reader).targets key).filter keep = (edges.targets key).filter keep := by
  have hnot : reader ∉ (edges.targets key).filter keep := fun hmem =>
    Bool.false_ne_true (h.symm.trans (List.mem_filter.1 hmem).2)
  rw [targets_unlink]
  split
  · rw [← List.erase_filter, List.erase_of_not_mem hnot]
  · rfl

/-! ## Adding and removing a reader of several keys -/

theorem NoneRepeated.foldl_link (h : edges.NoneRepeated) (sources : List String) (reader : String) :
    (sources.foldl (fun e source => e.link source reader) edges).NoneRepeated :=
  List.foldlRecOn sources _ h fun _ h source _ => h.link source reader

theorem NoneEmpty.foldl_link (h : edges.NoneEmpty) (sources : List String) (reader : String) :
    (sources.foldl (fun e source => e.link source reader) edges).NoneEmpty :=
  List.foldlRecOn sources _ h fun _ h source _ => h.link source reader

theorem foldl_link_of_mem (h : ∀ source ∈ sources, reader ∈ edges.targets source) :
    sources.foldl (fun e source => e.link source reader) edges = edges := by
  induction sources with
  | nil => rfl
  | cons source sources ih =>
    rw [List.foldl_cons, link_of_mem (h source List.mem_cons_self)]
    exact ih fun other hother => h other (List.mem_cons_of_mem source hother)

/-- A reader of several keys is listed behind the readers of each of them, once. -/
theorem targets_foldl_link :
    (sources.foldl (fun e source => e.link source reader) edges).targets key =
      if key ∈ sources ∧ reader ∉ edges.targets key then edges.targets key ++ [reader]
      else edges.targets key := by
  induction sources generalizing edges with
  | nil => simp
  | cons source sources ih =>
    rw [List.foldl_cons, ih, targets_link]
    grind

theorem mem_targets_foldl_link :
    other ∈ (sources.foldl (fun e source => e.link source reader) edges).targets key ↔
      other ∈ edges.targets key ∨ (key ∈ sources ∧ other = reader) := by
  rw [targets_foldl_link]
  split <;> grind

theorem filter_targets_foldl_link {keep : String → Bool} (h : keep reader = false) :
    ((sources.foldl (fun e source => e.link source reader) edges).targets key).filter keep =
      (edges.targets key).filter keep := by
  induction sources generalizing edges with
  | nil => rfl
  | cons source sources ih => rw [List.foldl_cons, ih, filter_targets_link h]

theorem NoneRepeated.foldl_unlink (h : edges.NoneRepeated) (sources : List String)
    (reader : String) :
    (sources.foldl (fun e source => e.unlink source reader) edges).NoneRepeated :=
  List.foldlRecOn sources _ h fun _ h source _ => h.unlink source reader

theorem NoneEmpty.foldl_unlink (h : edges.NoneEmpty) (sources : List String) (reader : String) :
    (sources.foldl (fun e source => e.unlink source reader) edges).NoneEmpty :=
  List.foldlRecOn sources _ h fun _ h source _ => h.unlink source reader

theorem NoneRepeated.mem_targets_foldl_unlink (h : edges.NoneRepeated) :
    other ∈ (sources.foldl (fun e source => e.unlink source reader) edges).targets key ↔
      other ∈ edges.targets key ∧ ¬ (key ∈ sources ∧ other = reader) := by
  induction sources generalizing edges with
  | nil => simp
  | cons source sources ih =>
    rw [List.foldl_cons, ih (h.unlink source reader), h.mem_targets_unlink, List.mem_cons]
    grind

theorem filter_targets_foldl_unlink {keep : String → Bool} (h : keep reader = false) :
    ((sources.foldl (fun e source => e.unlink source reader) edges).targets key).filter keep =
      (edges.targets key).filter keep := by
  induction sources generalizing edges with
  | nil => rfl
  | cons source sources ih => rw [List.foldl_cons, ih, filter_targets_unlink h]

end Edges

end Spreadsheet
