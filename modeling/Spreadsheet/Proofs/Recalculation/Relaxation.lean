import Mathlib.Data.List.Sort
import Mathlib.Order.Bounds.Basic
import Spreadsheet.Proofs.Recalculation.Depth
import Spreadsheet.Proofs.Recalculation.Scheduled

/-! # Depths by relaxation
Depths can also be found along a **topological order** of the affected cells, in which no cell comes
after one that it leads to: all depths are 0 at first, and each cell in turn is **relaxed**, which
raises its targets above it. Whatever topological order is taken, a cell ends up with the length of
the longest walk to it, so sorting the cells as they were discovered by these depths gives the
schedule. -/

namespace Spreadsheet

section Sorting

variable {α : Type} {f : α → Nat} {l l' : List α}

theorem mem_of_filter_eq {a : α} (h : ∀ n, l.filter (f · = n) = l'.filter (f · = n)) (ha : a ∈ l) :
    a ∈ l' := by
  have hfilter : a ∈ l.filter (f · = f a) := List.mem_filter.2 ⟨ha, decide_eq_true rfl⟩
  rw [h] at hfilter
  exact List.mem_of_mem_filter hfilter

/-- A list along which a number does not drop is determined by its members with each number. -/
theorem eq_of_filter_eq (hl : l.Pairwise fun a b => f a ≤ f b)
    (hl' : l'.Pairwise fun a b => f a ≤ f b)
    (h : ∀ n, l.filter (f · = n) = l'.filter (f · = n)) : l = l' := by
  induction l generalizing l' with
  | nil =>
    refine (List.eq_nil_iff_forall_not_mem.2 fun a ha => ?_).symm
    exact List.not_mem_nil (mem_of_filter_eq (fun n => (h n).symm) ha)
  | cons a l ih =>
    cases l' with
    | nil => exact absurd (mem_of_filter_eq h List.mem_cons_self) List.not_mem_nil
    | cons b l' =>
      obtain ⟨ha, hrest⟩ := List.pairwise_cons.1 hl
      obtain ⟨hb, hrest'⟩ := List.pairwise_cons.1 hl'
      -- both heads have the least number, so each is the first of its members
      have hle : f b ≤ f a := by
        rcases List.mem_cons.1 (mem_of_filter_eq h List.mem_cons_self) with rfl | hin
        · exact Nat.le_refl _
        · exact hb a hin
      have hge : f a ≤ f b := by
        rcases List.mem_cons.1 (mem_of_filter_eq (fun n => (h n).symm) List.mem_cons_self) with
          rfl | hin
        · exact Nat.le_refl _
        · exact ha b hin
      have hheads := h (f a)
      rw [List.filter_cons_of_pos (by simp), List.filter_cons_of_pos (by simp; omega)] at hheads
      obtain ⟨rfl, -⟩ := List.cons.inj hheads
      rw [ih hrest hrest' fun n => ?_]
      have hn := h n
      simp only [List.filter_cons] at hn
      split at hn
      · exact (List.cons.inj hn).2
      · exact hn

/-- **Sorting by a number is stable**: it gives the list along which the number does not drop and
that has the members with each number in the same order. -/
theorem eq_mergeSort_of_filter_eq (hl : l.Pairwise fun a b => f a ≤ f b)
    (h : ∀ n, l.filter (f · = n) = l'.filter (f · = n)) :
    l = l'.mergeSort fun a b => f a ≤ f b := by
  have htrans : ∀ a b c : α, decide (f a ≤ f b) → decide (f b ≤ f c) → decide (f a ≤ f c) := by
    simp only [decide_eq_true_eq]
    omega
  have htotal : ∀ a b : α, (decide (f a ≤ f b) || decide (f b ≤ f a)) := by
    simp only [Bool.or_eq_true, decide_eq_true_eq]
    omega
  refine eq_of_filter_eq hl ?_ fun n => ?_
  · simpa using List.pairwise_mergeSort htrans htotal l'
  · -- members with one number are in order already, so they are kept as they are
    have hsub : (l'.filter (f · = n)).Sublist (l'.mergeSort fun a b => f a ≤ f b) := by
      refine List.sublist_mergeSort htrans htotal ?_ List.filter_sublist
      refine List.pairwise_of_forall_mem_list fun a ha b hb => ?_
      simp only [List.mem_filter, decide_eq_true_eq] at ha hb ⊢
      omega
    have hkept := hsub.filter (f · = n)
    rw [List.filter_filter] at hkept
    simp only [Bool.and_self] at hkept
    rw [h]
    exact hkept.eq_of_length ((List.mergeSort_perm l' _).filter _).length_eq.symm

end Sorting

namespace Edges

variable {edges : Edges} {order roots : List String} {depths : String → Nat} {source target key : String}
  {n : Nat}

/-- The depths after one key is relaxed: its targets are raised above it. -/
def relax (edges : Edges) (depths : String → Nat) (key : String) : String → Nat := fun target =>
  if edges.Leads key target then max (depths target) (depths key + 1) else depths target

/-- The depths after the keys of a list are relaxed one after another, all of them 0 at first. -/
def relaxed (edges : Edges) (order : List String) : String → Nat :=
  order.foldl edges.relax fun _ => 0

theorem relaxed_concat (edges : Edges) (order : List String) (key : String) :
    edges.relaxed (order ++ [key]) = edges.relax (edges.relaxed order) key := by
  rw [relaxed, List.foldl_append]
  rfl

/-- The depth of a key is settled when its turn comes. -/
theorem relaxed_concat_of_mem (horder : edges.InOrder (order ++ [key]))
    (hself : ¬ edges.Leads key key) (htarget : target ∈ order ++ [key]) :
    edges.relaxed (order ++ [key]) target = edges.relaxed order target := by
  rw [relaxed_concat]
  refine if_neg fun hlead => ?_
  rcases List.mem_append.1 htarget with htarget | htarget
  · exact (List.pairwise_append.1 horder).2.2 target htarget key (List.mem_singleton_self key) hlead
  · exact hself (List.mem_singleton.1 htarget ▸ hlead)

/-- After a relaxation along a topological order each key is deeper than the keys that lead to
it. -/
theorem InOrder.relaxed_lt (horder : edges.InOrder order)
    (hself : ∀ key ∈ order, ¬ edges.Leads key key) (hsource : source ∈ order)
    (hlead : edges.Leads source target) :
    edges.relaxed order source < edges.relaxed order target := by
  induction order using List.reverseRecOn with
  | nil => exact absurd hsource List.not_mem_nil
  | append_singleton order key ih =>
    have hlast := hself key (List.mem_append_right order (List.mem_singleton_self key))
    rw [relaxed_concat_of_mem horder hlast hsource, relaxed_concat, relax]
    rcases List.mem_append.1 hsource with hsource | hsource
    · have hlt := ih (List.pairwise_append.1 horder).1
        (fun key hkey => hself key (List.mem_append_left _ hkey)) hsource
      split <;> omega
    · obtain rfl := List.mem_singleton.1 hsource
      rw [if_pos hlead]
      omega

/-- A topological order of a closed list has no key on a cycle, which would be deeper than itself. -/
theorem InOrder.not_onCycle (horder : edges.InOrder order)
    (hself : ∀ key ∈ order, ¬ edges.Leads key key) (hclosed : edges.Closed order)
    (hkey : key ∈ order) : ¬ edges.OnCycle key := by
  intro hcycle
  have hdeeper : ∀ {target}, Relation.TransGen edges.Leads key target →
      target ∈ order ∧ edges.relaxed order key < edges.relaxed order target := by
    intro target hwalk
    induction hwalk with
    | single hlead => exact ⟨hclosed key hkey _ hlead, horder.relaxed_lt hself hkey hlead⟩
    | tail _ hlead ih =>
      exact ⟨hclosed _ ih.1 _ hlead, ih.2.trans (horder.relaxed_lt hself ih.1 hlead)⟩
  exact Nat.lt_irrefl _ (hdeeper hcycle).2

/-- A topological order of a closed list has what some roots reach, if it has the roots and else only
keys that it feeds. -/
theorem InOrder.mem_iff_reached (horder : edges.InOrder order)
    (hself : ∀ key ∈ order, ¬ edges.Leads key key) (hclosed : edges.Closed order)
    (hroots : ∀ root ∈ roots, root ∈ order)
    (hfed : ∀ key ∈ order, key ∈ roots ∨ ∃ source ∈ order, edges.Leads source key) :
    key ∈ order ↔ ∃ root ∈ roots, edges.Reaches root key := by
  constructor
  · -- what feeds a key is less deep, so there is a root at the other end
    intro hkey
    induction hn : edges.relaxed order key using Nat.strongRecOn generalizing key with
    | _ n ih =>
      rcases hfed key hkey with hroot | ⟨source, hsource, hlead⟩
      · exact ⟨key, hroot, .refl⟩
      · have hlt := horder.relaxed_lt hself hsource hlead
        obtain ⟨root, hroot, hreach⟩ := ih _ (hn ▸ hlt) hsource rfl
        exact ⟨root, hroot, hreach.tail hlead⟩
  · rintro ⟨root, hroot, hreach⟩
    exact hclosed.mem_of_reaches (hroots root hroot) hreach

/-- After a relaxation along a topological order a key has depth 0, or it is one deeper than a key
that leads to it. -/
theorem InOrder.relaxed_eq_zero_or (horder : edges.InOrder order)
    (hself : ∀ key ∈ order, ¬ edges.Leads key key) (target : String) :
    edges.relaxed order target = 0 ∨ ∃ source ∈ order, edges.Leads source target ∧
      edges.relaxed order target = edges.relaxed order source + 1 := by
  induction order using List.reverseRecOn with
  | nil => exact .inl rfl
  | append_singleton order key ih =>
    have hmem : key ∈ order ++ [key] := List.mem_append_right order (List.mem_singleton_self key)
    have hlast := hself key hmem
    by_cases hraised : edges.Leads key target ∧ edges.relaxed order target ≤ edges.relaxed order key
    -- the last key raises the target, or the target keeps its depth
    · refine .inr ⟨key, hmem, hraised.1, ?_⟩
      rw [relaxed_concat_of_mem horder hlast hmem, relaxed_concat, relax, if_pos hraised.1]
      omega
    · have hkept : edges.relaxed (order ++ [key]) target = edges.relaxed order target := by
        rw [relaxed_concat, relax]
        split
        · rename_i hlead
          have := not_and.1 hraised hlead
          omega
        · rfl
      rw [hkept]
      refine (ih (List.pairwise_append.1 horder).1
        fun key hkey => hself key (List.mem_append_left _ hkey)).imp_right ?_
      rintro ⟨source, hsource, hlead, heq⟩
      have hsource := List.mem_append_left [key] hsource
      exact ⟨source, hsource, hlead, by rw [relaxed_concat_of_mem horder hlast hsource, heq]⟩

/-- **Relaxed depths are lengths of longest walks.** -/
theorem InOrder.isGreatest_relaxed (horder : edges.InOrder order)
    (hself : ∀ key ∈ order, ¬ edges.Leads key key) (hclosed : edges.Closed order)
    (hkey : key ∈ order) : IsGreatest (edges.lengthsTo order key) (edges.relaxed order key) := by
  constructor
  · -- a walk is followed back, one depth at a time
    generalize hn : edges.relaxed order key = n
    induction n generalizing key with
    | zero => exact ⟨key, hkey, .nil key⟩
    | succ n ih =>
      have hpositive : edges.relaxed order key ≠ 0 := by omega
      obtain ⟨next, hnext, hlead, heq⟩ :=
        (horder.relaxed_eq_zero_or hself key).resolve_left hpositive
      obtain ⟨source, hsource, hwalk⟩ := ih hnext (by omega)
      exact ⟨source, hsource, hwalk.concat hlead⟩
  · rintro n ⟨source, hsource, hwalk⟩
    have hdepth : edges.relaxed order source + n ≤ edges.relaxed order key := by
      clear hkey
      induction hwalk with
      | nil => omega
      | cons hlead _ ih =>
        have hlt := horder.relaxed_lt hself hsource hlead
        have := ih (hclosed _ hsource _ hlead)
        omega
    omega

end Edges

namespace Graph

variable {g : Graph} {roots order : List String} {s : Schedule} {key : String} {depth : Nat}

/-- **Relaxation finds the depths of a schedule**, along any topological order. -/
theorem relaxed_eq_of_mem_depths (h : g.schedule roots = .ok s)
    (hperm : order.Perm (g.dependents.reachable roots)) (horder : g.dependents.InOrder order)
    (hkey : (key, depth) ∈ s.depths) : g.dependents.relaxed order key = depth := by
  have hself : ∀ key ∈ order, ¬ g.dependents.Leads key key := fun key hkey hlead =>
    not_onCycle_of_schedule h key (hperm.mem_iff.1 hkey) (.single hlead)
  have hclosed : g.dependents.Closed order := fun source hsource target hlead =>
    hperm.mem_iff.2 (Edges.closed_reachable _ roots source (hperm.mem_iff.1 hsource) target hlead)
  have hmem : key ∈ order := by
    have hscheduled : key ∈ s.depths.map (·.1) := List.mem_map_of_mem hkey
    rw [Schedule.map_fst_depths] at hscheduled
    exact hperm.mem_iff.2 ((order_of_schedule h).1.mem_iff.1 hscheduled)
  have hlengths : g.dependents.lengthsTo order key =
      g.dependents.lengthsTo (g.dependents.reachable roots) key := by
    simp only [Edges.lengthsTo, hperm.mem_iff]
  have hgreatest := horder.isGreatest_relaxed hself hclosed hmem
  rw [hlengths] at hgreatest
  exact (Edges.isGreatest_lengthsTo_of_reachable hgreatest).unique (isGreatest_of_mem_depths h hkey)

/-- Each cell is scheduled with its relaxed depth. -/
theorem depths_eq_map (h : g.schedule roots = .ok s)
    (hperm : order.Perm (g.dependents.reachable roots)) (horder : g.dependents.InOrder order) :
    s.depths = s.order.map fun key => (key, g.dependents.relaxed order key) := by
  have hpairs : ∀ pair ∈ s.depths, (pair.1, g.dependents.relaxed order pair.1) = pair :=
    fun pair hpair => Prod.ext rfl (relaxed_eq_of_mem_depths h hperm horder hpair)
  rw [← Schedule.map_fst_depths, List.map_map]
  calc s.depths = s.depths.map id := (List.map_id s.depths).symm
    _ = _ := List.map_congr_left fun pair hpair => (hpairs pair hpair).symm

/-- **Sorting the affected cells by relaxed depths gives the schedule**, whatever topological order
they are relaxed in. -/
theorem order_eq_mergeSort (h : g.schedule roots = .ok s)
    (hperm : order.Perm (g.dependents.reachable roots)) (horder : g.dependents.InOrder order) :
    s.order = (g.dependents.reachable roots).mergeSort fun a b =>
      g.dependents.relaxed order a ≤ g.dependents.relaxed order b := by
  have hdepths := depths_eq_map h hperm horder
  have hpairwise := s.pairwise_depths
  rw [hdepths, List.pairwise_map] at hpairwise
  refine eq_mergeSort_of_filter_eq hpairwise fun depth => ?_
  -- the cells of one depth are in the order in which they were discovered
  obtain ⟨p, hp⟩ := exists_filter_of_depth h depth
  rw [hdepths, List.filter_map, List.map_map] at hp
  have hcells : s.order.filter (g.dependents.relaxed order · = depth) =
      (g.dependents.reachable roots).filter p := by
    rw [← hp]
    simp [Function.comp_def]
  rw [hcells]
  refine List.filter_congr fun key hkey => ?_
  have hmem : key ∈ s.order.filter (g.dependents.relaxed order · = depth) ↔
      key ∈ (g.dependents.reachable roots).filter p := by rw [hcells]
  have hscheduled : key ∈ s.order := (order_of_schedule h).1.mem_iff.2 hkey
  rw [Bool.eq_iff_iff]
  simpa [hkey, hscheduled] using hmem.symm

/-- A cell is scheduled after all scheduled cells that it reads. -/
theorem mem_before_of_leads {before after : List String} {reader source : String}
    (htransposed : g.Transposed) (h : g.schedule roots = .ok s)
    (hsplit : s.order = before ++ reader :: after) (hsource : source ∈ s.order)
    (hread : g.dependencies.Leads reader source) : source ∈ before := by
  obtain ⟨hperm, hinorder⟩ := order_of_schedule h
  have hlead : g.dependents.Leads source reader := (htransposed source reader).2 hread
  rw [hsplit] at hsource hinorder
  rcases List.mem_append.1 hsource with hbefore | hrest
  · exact hbefore
  · have hreader : reader ∈ g.dependents.reachable roots := hperm.mem_iff.1 (by simp [hsplit])
    rcases List.mem_cons.1 hrest with rfl | hafter
    · exact absurd (.single hlead) (not_onCycle_of_schedule h source hreader)
    · have hpairs := List.pairwise_cons.1 (List.pairwise_append.1 hinorder).2.1
      exact absurd hlead (hpairs.1 source hafter)

/-- **A schedule is an exact order by longest walks.** In a graph whose maps list each other
backwards, where no cycle is reached from the roots, there is a schedule. It has the roots and the
cells that they reach, each once and nothing else, and the depth of each is the length of the
longest walk to it from a root. Depths do not drop along the schedule, so a cell comes after all
scheduled cells that it reads, and the cells of one depth are in the order of breadth-first
discovery: the roots, and then the readers of each discovered cell in turn, each cell where it comes
up first. The greatest depth is the one reported, 0 without roots. The schedule is also what the
discovered cells are sorted into, and each depth what it is raised to, if the cells are relaxed in
any topological order. -/
theorem schedule_orders_by_longest_walks (htransposed : g.Transposed)
    (hcycle : ∀ root ∈ roots, ∀ key, g.dependents.Reaches root key → ¬ g.dependents.OnCycle key) :
    let found := g.dependents.reachable roots
    ∃ s, g.schedule roots = .ok s ∧
      s.order.Nodup ∧
      (∀ key, key ∈ s.order ↔ ∃ root ∈ roots, g.dependents.Reaches root key) ∧
      s.depths.map (·.1) = s.order ∧
      (∀ key depth, (key, depth) ∈ s.depths →
        IsGreatest {n | ∃ root ∈ roots, g.dependents.Walk n root key} depth) ∧
      s.depths.Pairwise (fun earlier later => earlier.2 ≤ later.2) ∧
      (∀ before reader after, s.order = before ++ reader :: after → ∀ source ∈ s.order,
        g.dependencies.Leads reader source → source ∈ before) ∧
      (∀ depth, ((s.depths.filter (·.2 = depth)).map (·.1)).Sublist found) ∧
      found = (roots ++ found.flatMap g.dependents.targets).eraseDups ∧
      s.maxDepth = ((s.depths.map (·.2)).max?).getD 0 ∧
      ∀ order : List String, order.Perm found → g.dependents.InOrder order →
        s.order = found.mergeSort (fun a b =>
          g.dependents.relaxed order a ≤ g.dependents.relaxed order b) ∧
        s.depths = s.order.map fun key => (key, g.dependents.relaxed order key) := by
  intro found
  obtain ⟨s, hs⟩ : ∃ s, g.schedule roots = .ok s := by
    refine exists_schedule_of_forall fun key hkey => ?_
    obtain ⟨root, hroot, hreach⟩ := Edges.mem_reachable.1 hkey
    exact hcycle root hroot key hreach
  refine ⟨s, hs, nodup_order hs, fun key => mem_order hs, s.map_fst_depths,
    fun key depth => isGreatest_of_mem_depths hs, s.pairwise_depths,
    fun before reader after hsplit source => mem_before_of_leads htransposed hs hsplit,
    fun depth => ?_, Edges.reachable_eq_eraseDups _ roots,
    Schedule.maxDepth_eq fun layer => Edges.ne_nil_of_mem_layers (layers_of_schedule hs),
    fun order hperm horder =>
      ⟨order_eq_mergeSort hs hperm horder, depths_eq_map hs hperm horder⟩⟩
  obtain ⟨p, hp⟩ := exists_filter_of_depth hs depth
  exact hp ▸ List.filter_sublist

/-- A root that another root feeds, over a cell between them, is as deep as the walk over that cell
is long, and a root without a formula is scheduled too. -/
theorem depths_of_roots_that_feed_each_other :
    let g := Graph.ofFormulas
      (.ofList [("A1", "1"), ("B1", "A1"), ("C1", "A1 + B1"), ("D1", "C1 + B1")])
    let roots := ["C1", "E1", "A1", "C1"]
    g.Transposed ∧
    (∀ root ∈ roots, ∀ key, g.dependents.Reaches root key → ¬ g.dependents.OnCycle key) ∧
    ∃ s, g.schedule roots = .ok s ∧
      ("E1", 0) ∈ s.depths ∧ ("C1", 2) ∈ s.depths ∧ ("D1", 3) ∈ s.depths := by
  intro g roots
  let order := ["A1", "E1", "B1", "C1", "D1"]
  let rank (key : String) : Nat :=
    if key = "A1" then 3 else if key = "B1" then 2 else if key = "C1" then 1 else 0
  have htransposed : g.Transposed := (coherent_ofFormulas _).leads_iff
  have hacyclic : g.dependents.Acyclic := Edges.acyclic_of_rank rank (by decide +kernel)
  have hcycle : ∀ root ∈ roots, ∀ key, g.dependents.Reaches root key →
      ¬ g.dependents.OnCycle key := fun _ _ key _ => hacyclic key
  have horder : g.dependents.InOrder order := by decide +kernel
  have hperm : order.Perm (g.dependents.reachable roots) := by
    refine (List.perm_ext_iff_of_nodup (by decide) (Edges.nodup_reachable _ roots)).2 fun key => ?_
    rw [Edges.mem_reachable]
    exact horder.mem_iff_reached (by decide +kernel) (by decide +kernel) (by decide)
      (by decide +kernel)
  obtain ⟨s, hs, -, -, -, -, -, -, -, -, -, hrelaxed⟩ :=
    schedule_orders_by_longest_walks htransposed hcycle
  obtain ⟨-, hdepths⟩ := hrelaxed order hperm horder
  have hdepth : ∀ key ∈ order, (key, g.dependents.relaxed order key) ∈ s.depths := by
    intro key hkey
    rw [hdepths]
    exact List.mem_map_of_mem ((order_of_schedule hs).1.mem_iff.2 (hperm.mem_iff.1 hkey))
  refine ⟨htransposed, hcycle, s, hs, ?_, ?_, ?_⟩
  · exact hdepth "E1" (by decide)
  · exact hdepth "C1" (by decide)
  · exact hdepth "D1" (by decide)

end Graph

end Spreadsheet
