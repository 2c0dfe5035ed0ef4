import Spreadsheet.Engine.Feed

/-! # What each mailbox holds
What the operations of a feed do to a mailbox: whether it is held, and what was delivered to it. A
sender **keeps track** of its mailboxes if those that it knows are there and those of them that are
held are all that are held, in the order in which they came. Every operation keeps this up, so what
is sent reaches each mailbox that is held, and right after it the sender knows just these. -/

namespace Spreadsheet

namespace Feed

variable {α : Type} {f : Feed α} {n : Nat}

/-- What was delivered to a mailbox, oldest first. -/
def deliveredTo (f : Feed α) (n : Nat) : List α := (f.mailboxes[n]?.map (·.delivered)).getD []

theorem isHeld_eq (f : Feed α) (n : Nat) :
    f.isHeld n = (f.mailboxes[n]?.map (·.held)).getD false := by
  unfold isHeld
  cases f.mailboxes[n]? <;> rfl

/-- Only a mailbox that is there can be held. -/
theorem lt_length_of_isHeld (h : f.isHeld n) : n < f.mailboxes.length := by
  refine Nat.lt_of_not_le fun hge => ?_
  rw [isHeld_eq, List.getElem?_eq_none hge] at h
  exact Bool.false_ne_true h

/-! ## Subscribing -/

theorem getElem?_subscribe (f : Feed α) (held : Bool) (first : α) (n : Nat) :
    (f.subscribe held first).mailboxes[n]? =
      if n = f.mailboxes.length then some ⟨held, if held then [first] else [], 0⟩
      else f.mailboxes[n]? := by
  simp only [subscribe, List.getElem?_append, List.getElem?_singleton]
  grind

theorem length_subscribe (f : Feed α) (held : Bool) (first : α) :
    (f.subscribe held first).mailboxes.length = f.mailboxes.length + 1 := by
  rw [subscribe, List.length_append, List.length_singleton]

theorem isHeld_subscribe (f : Feed α) (held : Bool) (first : α) (n : Nat) :
    (f.subscribe held first).isHeld n = if n = f.mailboxes.length then held else f.isHeld n := by
  rw [isHeld_eq, isHeld_eq, getElem?_subscribe]
  split <;> rfl

theorem deliveredTo_subscribe (f : Feed α) (held : Bool) (first : α) (n : Nat) :
    (f.subscribe held first).deliveredTo n =
      if n = f.mailboxes.length then (if held then [first] else []) else f.deliveredTo n := by
  rw [deliveredTo, deliveredTo, getElem?_subscribe]
  split <;> rfl

/-! ## Sending -/

theorem getElem?_send (f : Feed α) (message : α) (n : Nat) :
    (f.send message).mailboxes[n]? = f.mailboxes[n]?.map fun m =>
      if n ∈ f.attached.filter f.isHeld then { m with delivered := m.delivered ++ [message] }
      else m := by
  rw [send, List.getElem?_mapIdx]

@[simp] theorem length_send (f : Feed α) (message : α) :
    (f.send message).mailboxes.length = f.mailboxes.length := List.length_mapIdx

@[simp] theorem isHeld_send (f : Feed α) (message : α) : (f.send message).isHeld = f.isHeld := by
  funext n
  rw [isHeld_eq, isHeld_eq, getElem?_send]
  cases f.mailboxes[n]? with
  | none => rfl
  | some m =>
    simp only [Option.map_some, Option.getD_some]
    split <;> rfl

@[simp] theorem length_foldl_send (f : Feed α) (messages : List α) :
    (messages.foldl Feed.send f).mailboxes.length = f.mailboxes.length := by
  induction messages generalizing f with
  | nil => rfl
  | cons message rest ih => rw [List.foldl_cons, ih, length_send]

@[simp] theorem isHeld_foldl_send (f : Feed α) (messages : List α) :
    (messages.foldl Feed.send f).isHeld = f.isHeld := by
  induction messages generalizing f with
  | nil => rfl
  | cons message rest ih => rw [List.foldl_cons, ih, isHeld_send]

/-- Sending attaches no mailbox. -/
theorem mem_attached_of_foldl_send {messages : List α}
    (h : n ∈ (messages.foldl Feed.send f).attached) : n ∈ f.attached := by
  induction messages generalizing f with
  | nil => exact h
  | cons message rest ih => exact (List.mem_filter.1 (ih h)).1

/-! ## Changing one mailbox -/

theorem getElem?_modify (f : Feed α) (number : Nat) (change : Mailbox α → Mailbox α) (n : Nat) :
    (f.modify number change).mailboxes[n]? =
      f.mailboxes[n]?.map fun m => if number = n then change m else m := by
  rw [modify, List.getElem?_modify]
  cases f.mailboxes[n]? with
  | none => rfl
  | some m => by_cases h : number = n <;> simp [h]

@[simp] theorem length_leave (f : Feed α) (number : Nat) :
    (f.leave number).mailboxes.length = f.mailboxes.length := List.length_modify ..

theorem isHeld_leave (f : Feed α) (number n : Nat) :
    (f.leave number).isHeld n = (f.isHeld n && number != n) := by
  rw [isHeld_eq, isHeld_eq, leave, getElem?_modify]
  cases f.mailboxes[n]? with
  | none => rfl
  | some m => by_cases h : number = n <;> simp [h]

@[simp] theorem deliveredTo_leave (f : Feed α) (number n : Nat) :
    (f.leave number).deliveredTo n = f.deliveredTo n := by
  rw [deliveredTo, deliveredTo, leave, getElem?_modify]
  cases f.mailboxes[n]? with
  | none => rfl
  | some m => by_cases h : number = n <;> simp [h]

/-- Taking what was delivered changes at most how much of it was taken. -/
theorem poll_eq_or (f : Feed α) (number : Nat) :
    (f.poll number).2 = f ∨
      (f.poll number).2 = f.modify number fun m => { m with taken := m.delivered.length } := by
  unfold poll
  split
  · split
    · exact .inr rfl
    · exact .inl rfl
  · exact .inl rfl

@[simp] theorem attached_poll (f : Feed α) (number : Nat) :
    (f.poll number).2.attached = f.attached := by
  rcases f.poll_eq_or number with h | h <;> rw [h]
  rfl

theorem close_poll (f : Feed α) (number : Nat) :
    (f.poll number).2.close = (f.close.poll number).2 := by
  simp only [poll, close]
  split
  · split <;> rfl
  · rfl

@[simp] theorem length_poll (f : Feed α) (number : Nat) :
    (f.poll number).2.mailboxes.length = f.mailboxes.length := by
  rcases f.poll_eq_or number with h | h <;> rw [h]
  exact List.length_modify ..

@[simp] theorem isHeld_poll (f : Feed α) (number : Nat) : (f.poll number).2.isHeld = f.isHeld := by
  rcases f.poll_eq_or number with h | h <;> rw [h]
  funext n
  rw [isHeld_eq, isHeld_eq, getElem?_modify, Option.map_map]
  congr 2
  funext m
  by_cases hn : number = n <;> simp [hn]

@[simp] theorem deliveredTo_poll (f : Feed α) (number n : Nat) :
    (f.poll number).2.deliveredTo n = f.deliveredTo n := by
  rcases f.poll_eq_or number with h | h <;> rw [h]
  rw [deliveredTo, deliveredTo, getElem?_modify, Option.map_map]
  congr 2
  funext m
  by_cases hn : number = n <;> simp [hn]

/-! ## Keeping track -/

/-- The sender knows the mailboxes that are held, in the order in which they came. -/
structure Tracked (f : Feed α) : Prop where
  /-- The mailboxes that the sender knows are there. -/
  attached_lt : ∀ n ∈ f.attached, n < f.mailboxes.length
  /-- Those of them that are held are all that are held. -/
  held_attached : f.attached.filter f.isHeld = (List.range f.mailboxes.length).filter f.isHeld

theorem tracked_empty : (empty : Feed α).Tracked :=
  ⟨fun _ h => absurd h List.not_mem_nil, rfl⟩

/-- A mailbox that is held is one that messages are sent to. -/
theorem Tracked.mem_filter_attached (h : f.Tracked) :
    n ∈ f.attached.filter f.isHeld ↔ f.isHeld n := by
  rw [h.held_attached, List.mem_filter, List.mem_range]
  exact and_iff_right_of_imp lt_length_of_isHeld

theorem Tracked.subscribe (h : f.Tracked) (held : Bool) (first : α) :
    (f.subscribe held first).Tracked := by
  -- all numbers in use are smaller than the new one, so the others are as before
  have hold : ∀ n ∈ f.attached, (f.subscribe held first).isHeld n = f.isHeld n :=
    fun n hn => by rw [isHeld_subscribe, if_neg (Nat.ne_of_lt (h.attached_lt n hn))]
  have hrange : ∀ n ∈ List.range f.mailboxes.length,
      (f.subscribe held first).isHeld n = f.isHeld n :=
    fun n hn => by rw [isHeld_subscribe, if_neg (Nat.ne_of_lt (List.mem_range.1 hn))]
  have hnew : [f.mailboxes.length].filter (f.subscribe held first).isHeld =
      if held then [f.mailboxes.length] else [] := by
    rw [List.filter_cons, isHeld_subscribe, if_pos rfl, List.filter_nil]
  refine ⟨fun n hn => ?_, ?_⟩
  · rw [length_subscribe]
    cases held with
    | false => exact Nat.lt_succ_of_lt (h.attached_lt n hn)
    | true =>
      rcases List.mem_append.1 hn with hn | hn
      · exact Nat.lt_succ_of_lt (h.attached_lt n hn)
      · exact List.mem_singleton.1 hn ▸ Nat.lt_succ_self _
  · rw [length_subscribe, List.range_succ, List.filter_append, List.filter_congr hrange,
      ← h.held_attached, ← List.filter_congr hold]
    -- the new mailbox comes last in both lists, or in neither
    rw [hnew]
    cases held with
    | false => exact (List.append_nil _).symm
    | true => exact List.filter_append .. |>.trans (congrArg _ hnew)

theorem Tracked.send (h : f.Tracked) (message : α) : (f.send message).Tracked := by
  refine ⟨fun n hn => ?_, ?_⟩
  · rw [length_send]
    exact h.attached_lt n (List.mem_filter.1 hn).1
  · rw [length_send, isHeld_send, attached_send, List.filter_filter, ← h.held_attached]
    simp only [Bool.and_self]

theorem Tracked.foldl_send (h : f.Tracked) (messages : List α) :
    (messages.foldl Feed.send f).Tracked :=
  List.foldlRecOn messages Feed.send h fun _ hf message _ => hf.send message

theorem Tracked.leave (h : f.Tracked) (number : Nat) : (f.leave number).Tracked := by
  -- both lists lose the one number, if they have it
  have hsplit : ∀ list : List Nat,
      list.filter (f.leave number).isHeld = (list.filter f.isHeld).filter (number != ·) := by
    intro list
    rw [List.filter_filter]
    exact List.filter_congr fun n _ => by rw [isHeld_leave, Bool.and_comm]
  refine ⟨fun n hn => ?_, ?_⟩
  · rw [length_leave]
    exact h.attached_lt n hn
  · rw [length_leave, attached_leave, hsplit, hsplit, h.held_attached]

theorem Tracked.poll (h : f.Tracked) (number : Nat) : (f.poll number).2.Tracked := by
  refine ⟨fun n hn => ?_, ?_⟩
  · rw [length_poll]
    exact h.attached_lt n (f.attached_poll number ▸ hn)
  · rw [attached_poll, isHeld_poll, length_poll, h.held_attached]

/-- **What is sent reaches the mailboxes that are held**, and only those. -/
theorem Tracked.deliveredTo_send (h : f.Tracked) (message : α) (n : Nat) :
    (f.send message).deliveredTo n = f.deliveredTo n ++ if f.isHeld n then [message] else [] := by
  have hmem := h.mem_filter_attached (n := n)
  rw [deliveredTo, deliveredTo, getElem?_send]
  cases hmailbox : f.mailboxes[n]? with
  | none =>
    have hnot : ¬ f.isHeld n := by simp [isHeld_eq, hmailbox]
    simp [hnot]
  | some m =>
    simp only [hmem, Option.map_some, Option.getD_some]
    split <;> simp

/-- Several messages reach each mailbox that is held in the order in which they are sent. -/
theorem Tracked.deliveredTo_foldl_send (h : f.Tracked) (messages : List α) (n : Nat) :
    (messages.foldl Feed.send f).deliveredTo n =
      f.deliveredTo n ++ if f.isHeld n then messages else [] := by
  induction messages generalizing f with
  | nil => simp
  | cons message rest ih =>
    rw [List.foldl_cons, ih (h.send message), h.deliveredTo_send, isHeld_send]
    split <;> simp

/-- **Right after sending** the sender knows just the mailboxes that are held. -/
theorem Tracked.attached_send (h : f.Tracked) (message : α) :
    (f.send message).attached =
      (List.range (f.send message).mailboxes.length).filter (f.send message).isHeld := by
  rw [length_send, isHeld_send, ← h.held_attached]
  rfl

end Feed

end Spreadsheet
