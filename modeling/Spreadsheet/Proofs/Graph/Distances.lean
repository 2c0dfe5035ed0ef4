import Mathlib.Order.Lattice.Nat
import Spreadsheet.Proofs.Graph.Walks

/-! # Nearest first
The **distance** of a key from some roots is the length of a shortest walk from one of them. A
breadth-first search finds keys in the order of their distances: the front part of its queue lies
**within** some number of steps, the rest within one step more, and whatever lies nearer has been
seen. The queue can name a key more than once, and keys that were seen by then. -/

namespace Spreadsheet

namespace Edges

variable {edges : Edges} {roots near far queue : List String} {seen : KeySet} {key target : String}
  {m n : Nat}

/-! ## Distances -/

/-- The length of a shortest walk to a key from the keys of a list, 0 if there is none. -/
noncomputable def distance (edges : Edges) (roots : List String) (key : String) : Nat :=
  sInf (edges.lengthsTo roots key)

/-- Some walk to the key from the keys of a list has at most so many steps. -/
def Within (edges : Edges) (roots : List String) (n : Nat) (key : String) : Prop :=
  ∃ m ∈ edges.lengthsTo roots key, m ≤ n

theorem Within.mono (h : edges.Within roots m key) (hle : m ≤ n) : edges.Within roots n key := by
  obtain ⟨k, hwalk, hk⟩ := h
  exact ⟨k, hwalk, hk.trans hle⟩

theorem within_zero : edges.Within roots 0 key ↔ key ∈ roots := by
  constructor
  · rintro ⟨m, ⟨root, hroot, hwalk⟩, hm⟩
    obtain rfl := Nat.le_zero.1 hm
    cases hwalk
    exact hroot
  · exact fun hkey => ⟨0, ⟨key, hkey, .nil key⟩, Nat.le_refl 0⟩

/-- A walk with a step more goes on from a key that is nearer. -/
theorem within_succ : edges.Within roots (n + 1) key ↔
    edges.Within roots n key ∨ ∃ source, edges.Within roots n source ∧ edges.Leads source key := by
  constructor
  · rintro ⟨m, ⟨root, hroot, hwalk⟩, hm⟩
    rcases Nat.lt_or_eq_of_le hm with hlt | rfl
    · exact .inl ⟨m, ⟨root, hroot, hwalk⟩, Nat.le_of_lt_succ hlt⟩
    · obtain ⟨source, hbefore, hlead⟩ := hwalk.exists_concat
      exact .inr ⟨source, ⟨n, ⟨root, hroot, hbefore⟩, Nat.le_refl n⟩, hlead⟩
  · rintro (h | ⟨source, ⟨m, ⟨root, hroot, hwalk⟩, hm⟩, hlead⟩)
    · exact h.mono (Nat.le_succ n)
    · exact ⟨m + 1, ⟨root, hroot, hwalk.concat hlead⟩, Nat.succ_le_succ hm⟩

/-- The distance of a key that is reached is the length of a walk, and none is shorter. -/
theorem isLeast_distance (h : ∃ root ∈ roots, edges.Reaches root key) :
    IsLeast (edges.lengthsTo roots key) (edges.distance roots key) := by
  obtain ⟨root, hroot, hreach⟩ := h
  obtain ⟨n, hwalk⟩ := reaches_iff_exists_walk.1 hreach
  exact ⟨Nat.sInf_mem ⟨n, root, hroot, hwalk⟩, fun m hm => Nat.sInf_le hm⟩

/-- Of two keys that are reached the one that is within any number of steps that the other is within
is no farther. -/
theorem distance_le_distance (htarget : ∃ root ∈ roots, edges.Reaches root target)
    (h : ∀ n, edges.Within roots n target → edges.Within roots n key) :
    edges.distance roots key ≤ edges.distance roots target := by
  obtain ⟨m, hwalk, hm⟩ := h _ ⟨_, (isLeast_distance htarget).1, Nat.le_refl _⟩
  exact (Nat.sInf_le hwalk).trans hm

/-! ## The queue of a search -/

/-- **How far a search has come**: its queue has a front part and a rest, and everything within a
number of steps was seen or is in the front part. -/
structure Searched (edges : Edges) (roots : List String) (seen : KeySet) (n : Nat)
    (near far : List String) : Prop where
  /-- The front part lies within the number of steps. -/
  near_within : ∀ key ∈ near, edges.Within roots n key
  /-- The rest lies within one step more. -/
  far_within : ∀ key ∈ far, edges.Within roots (n + 1) key
  /-- Whatever is nearer was seen. -/
  seen_of_nearer : ∀ m < n, ∀ key, edges.Within roots m key → key ∈ seen
  /-- Whatever is as near was seen or is in the front part. -/
  seen_or_near : ∀ key, edges.Within roots n key → key ∈ seen ∨ key ∈ near
  /-- What the keys that were seen lead to was seen or is in the queue. -/
  seen_or_queued : ∀ source ∈ seen, ∀ target, edges.Leads source target →
    target ∈ seen ∨ target ∈ near ++ far

namespace Searched

/-- Where the front part is used up the rest takes its place. -/
theorem shift (h : edges.Searched roots seen n [] far) :
    edges.Searched roots seen (n + 1) far [] := by
  have hseen : ∀ key, edges.Within roots n key → key ∈ seen := fun key hkey =>
    (h.seen_or_near key hkey).resolve_right List.not_mem_nil
  refine ⟨h.far_within, fun _ hkey => absurd hkey List.not_mem_nil, fun m hm key hkey => ?_,
    fun key hkey => ?_, fun source hsource target hlead => ?_⟩
  · exact hseen key (hkey.mono (Nat.le_of_lt_succ hm))
  · rcases within_succ.1 hkey with hkey | ⟨source, hsource, hlead⟩
    · exact .inl (hseen key hkey)
    · exact h.seen_or_queued source (hseen source hsource) key hlead
  · rw [List.append_nil]
    exact h.seen_or_queued source hsource target hlead

/-- A key that was seen is dropped. -/
theorem skip (h : edges.Searched roots seen n (key :: near) far) (hkey : key ∈ seen) :
    edges.Searched roots seen n near far where
  near_within other hother := h.near_within other (List.mem_cons_of_mem key hother)
  far_within := h.far_within
  seen_of_nearer := h.seen_of_nearer
  seen_or_near other hother := by
    rcases h.seen_or_near other hother with hseen | hnear
    · exact .inl hseen
    · rcases List.mem_cons.1 hnear with rfl | hnear
      · exact .inl hkey
      · exact .inr hnear
  seen_or_queued source hsource target hlead := by
    rcases h.seen_or_queued source hsource target hlead with hseen | hqueue
    · exact .inl hseen
    · rcases List.mem_cons.1 hqueue with rfl | hqueue
      · exact .inl hkey
      · exact .inr hqueue

/-- A new key counts as seen, and its targets are queued behind all others. -/
theorem visit (h : edges.Searched roots seen n (key :: near) far) :
    edges.Searched roots (seen.insert key) n near (far ++ edges.targets key) := by
  have hgrow : ∀ other ∈ seen, other ∈ seen.insert key := fun other hother =>
    Std.ExtTreeSet.mem_insert.2 (.inr hother)
  have hself : key ∈ seen.insert key := Std.ExtTreeSet.mem_insert_self
  refine ⟨fun other hother => h.near_within other (List.mem_cons_of_mem key hother),
    fun other hother => ?_,
    fun m hm other hother => hgrow other (h.seen_of_nearer m hm other hother),
    fun other hother => ?_, fun source hsource target hlead => ?_⟩
  · rcases List.mem_append.1 hother with hfar | hlead
    · exact h.far_within other hfar
    · exact within_succ.2 (.inr ⟨key, h.near_within key List.mem_cons_self, hlead⟩)
  · rcases h.seen_or_near other hother with hseen | hnear
    · exact .inl (hgrow other hseen)
    · rcases List.mem_cons.1 hnear with rfl | hnear
      · exact .inl hself
      · exact .inr hnear
  · rw [← List.append_assoc]
    rcases Std.ExtTreeSet.mem_insert.1 hsource with heq | hsource
    · obtain rfl := Std.LawfulEqCmp.eq_of_compare heq
      exact .inr (List.mem_append_right _ hlead)
    · rcases h.seen_or_queued source hsource target hlead with hseen | hqueue
      · exact .inl (hgrow target hseen)
      · rcases List.mem_cons.1 hqueue with rfl | hqueue
        · exact .inl hself
        · exact .inr (List.mem_append_left _ hqueue)

/-- The head of the queue is in the front part, if need be once the rest has taken its place. -/
theorem exists_near (h : edges.Searched roots seen n near far)
    (hqueue : near ++ far = key :: queue) :
    ∃ n near far, near ++ far = queue ∧ edges.Searched roots seen n (key :: near) far := by
  cases near with
  | nil =>
    obtain rfl : far = key :: queue := hqueue
    exact ⟨n + 1, queue, [], List.append_nil queue, h.shift⟩
  | cons head near =>
    obtain ⟨rfl, rfl⟩ := List.cons.inj hqueue
    exact ⟨n, near, far, rfl, h⟩

/-- **A search goes on nearest first**: what it finds later is within no number of steps that what
it finds earlier is not within. -/
theorem pairwise_explore (h : edges.Searched roots seen n near far) (hqueue : near ++ far = queue) :
    (edges.explore seen queue).Pairwise fun nearer farther =>
      ∀ m, edges.Within roots m farther → edges.Within roots m nearer := by
  fun_induction explore edges seen queue generalizing n near far with
  | case1 => exact .nil
  | case2 seen head queue hhead ih =>
    obtain ⟨n, near, far, rfl, h⟩ := h.exists_near hqueue
    exact ih (h.skip hhead) rfl
  | case3 seen head queue hhead ih =>
    obtain ⟨n, near, far, rfl, h⟩ := h.exists_near hqueue
    refine List.pairwise_cons.2 ⟨fun later hlater m hm => ?_,
      ih h.visit (List.append_assoc ..).symm⟩
    -- what is found later was not seen yet, so it is not nearer than the front part
    have hnew : later ∉ seen := fun hseen =>
      not_mem_seen_of_mem_explore hlater (Std.ExtTreeSet.mem_insert.2 (.inr hseen))
    have hle : n ≤ m := Nat.le_of_not_lt fun hlt => hnew (h.seen_of_nearer m hlt later hm)
    exact (h.near_within head List.mem_cons_self).mono hle

end Searched

/-! ## What is found, nearest first -/

/-- **Beyond a key** lies what a walk with a step reaches, the key itself apart. -/
theorem mem_beyond : target ∈ edges.beyond key ↔
    target ≠ key ∧ Relation.TransGen edges.Leads key target := by
  constructor
  · intro h
    refine ⟨fun heq => not_mem_seen_of_mem_explore h (heq ▸ Std.ExtTreeSet.mem_insert_self), ?_⟩
    obtain ⟨next, hlead, hreach⟩ := reaches_of_mem_explore h
    exact .head' hlead hreach
  · rintro ⟨hne, hwalk⟩
    have hmem : target ∈ key :: edges.beyond key :=
      Closed.mem_of_reaches (fun _ hsource _ hlead => mem_cons_beyond_of_leads hsource hlead)
        List.mem_cons_self hwalk.to_reflTransGen
    exact (List.mem_cons.1 hmem).resolve_left hne

/-- **What lies beyond a key is listed nearest first.** -/
theorem pairwise_beyond (edges : Edges) (key : String) :
    (edges.beyond key).Pairwise fun nearer farther =>
      edges.distance [key] nearer ≤ edges.distance [key] farther := by
  have hsearched : edges.Searched [key] {key} 0 [] (edges.targets key) := by
    refine ⟨fun _ h => absurd h List.not_mem_nil, fun other hlead => ?_, fun m hm => ?_,
      fun other hother => ?_, fun source hsource target hlead => ?_⟩
    · exact within_succ.2 (.inr ⟨key, within_zero.2 (List.mem_singleton_self key), hlead⟩)
    · exact absurd hm (Nat.not_lt_zero m)
    · exact .inl (mem_singleton_keySet.2 (List.mem_singleton.1 (within_zero.1 hother)))
    · obtain rfl := mem_singleton_keySet.1 hsource
      exact .inr hlead
  refine (hsearched.pairwise_explore rfl).imp_of_mem fun _ hfarther h => ?_
  exact distance_le_distance
    ⟨key, List.mem_singleton_self key, (mem_beyond.1 hfarther).2.to_reflTransGen⟩ h

end Edges

end Spreadsheet
