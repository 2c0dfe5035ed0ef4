import Spreadsheet.Proofs.Engine.Events
import Spreadsheet.Proofs.Engine.Mailboxes

/-! # Which snapshots subscribers are sent
Accepted batches and requests to publish are what an engine **announces**, each by the snapshot that
it has then. A subscriber that keeps its mailbox is sent the snapshot that it finds when it comes
and then all that is announced later, whatever the other subscribers do meanwhile. -/

namespace Spreadsheet

/-- Whether a subscriber comes, with a mailbox that is held or not. -/
def Event.isSubscription : Event → Bool
  | .subscribe _ => true
  | _ => false

namespace Engine

variable {fresh e edited : Engine} {batch : Batch} {report : Report} {d : Dimensions} {n : Nat}

/-- The snapshots that an event makes the engine send. -/
def announced (e : Engine) : Event → List Snapshot
  | .edit batch =>
    match e.apply batch with
    | .ok (_, edited) => [edited.snapshot]
    | .error _ => []
  | .publish => [e.snapshot]
  | .subscribe _ | .leave _ | .poll _ => []

/-- The snapshots that events one after another make the engine send. -/
def announcedAll (e : Engine) : List Event → List Snapshot
  | [] => []
  | event :: later => e.announced event ++ (e.react event).announcedAll later

theorem announced_of_apply_eq_ok (h : e.apply batch = .ok (report, edited)) :
    e.announced (.edit batch) = [edited.snapshot] := by
  rw [announced, h]

theorem announced_of_apply_eq_error {cause : SheetError} (h : e.apply batch = .error cause) :
    e.announced (.edit batch) = [] := by
  rw [announced, h]

theorem feed_of_new (h : Engine.new d = .ok fresh) : fresh.feed = .empty := by
  unfold Engine.new at h
  split at h
  · exact (Except.ok.inj h) ▸ rfl
  · cases h

/-! ## One event -/

/-- What a batch announces is all that it does to the feed. -/
theorem feed_submit (e : Engine) (batch : Batch) :
    (e.submit batch).feed = (e.announced (.edit batch)).foldl Feed.send e.feed := by
  cases happly : e.apply batch with
  | error cause => rw [submit_of_apply_eq_error happly, announced_of_apply_eq_error happly]; rfl
  | ok accepted =>
    obtain ⟨_, h⟩ := accepts_of_apply happly
    rw [submit_eq_of_apply happly, announced_of_apply_eq_ok happly]
    exact h.feed_eq

theorem tracked_react (h : e.feed.Tracked) (event : Event) : (e.react event).feed.Tracked := by
  cases event with
  | edit batch =>
    rw [react, feed_submit]
    exact h.foldl_send _
  | publish => exact h.send e.snapshot
  | subscribe held => exact h.subscribe held e.snapshot
  | leave number => exact h.leave number
  | poll number => exact h.poll number

theorem length_react (e : Engine) (event : Event) :
    (e.react event).feed.mailboxes.length =
      e.feed.mailboxes.length + if event.isSubscription then 1 else 0 := by
  cases event with
  | edit batch =>
    rw [react, feed_submit]
    exact Feed.length_foldl_send ..
  | publish => exact Feed.length_send ..
  | subscribe held => exact Feed.length_subscribe ..
  | leave number => exact Feed.length_leave ..
  | poll number => exact Feed.length_poll ..

/-- A mailbox that is there stays held unless its owner gives it up. -/
theorem isHeld_react (event : Event) (hn : n < e.feed.mailboxes.length) :
    (e.react event).feed.isHeld n ↔ e.feed.isHeld n ∧ event ≠ .leave n := by
  cases event with
  | edit batch => simp [react, feed_submit]
  | publish => simp [react, publish]
  | subscribe held => simp [react, subscribe, Feed.isHeld_subscribe, hn.ne]
  | leave number => simp [react, leave, Feed.isHeld_leave]
  | poll number => simp [react, poll]

/-- **An event delivers what it announces** to each mailbox that was there and is held. -/
theorem deliveredTo_react (h : e.feed.Tracked) (event : Event)
    (hn : n < e.feed.mailboxes.length) :
    (e.react event).feed.deliveredTo n =
      e.feed.deliveredTo n ++ if e.feed.isHeld n then e.announced event else [] := by
  cases event with
  | edit batch =>
    rw [react, feed_submit]
    exact h.deliveredTo_foldl_send _ n
  | publish => exact h.deliveredTo_send e.snapshot n
  | subscribe held => simp [react, subscribe, Feed.deliveredTo_subscribe, hn.ne, announced]
  | leave number => simp [react, leave, announced]
  | poll number => simp [react, poll, announced]

/-- No event attaches a mailbox that was there and was not attached. -/
theorem mem_attached_of_react {event : Event} (hn : n < e.feed.mailboxes.length)
    (h : n ∈ (e.react event).feed.attached) : n ∈ e.feed.attached := by
  cases event with
  | edit batch =>
    rw [react, feed_submit] at h
    exact Feed.mem_attached_of_foldl_send h
  | publish => exact (List.mem_filter.1 h).1
  | subscribe held =>
    cases held with
    | false => exact h
    | true =>
      refine (List.mem_append.1 h).resolve_right fun hnew => ?_
      exact hn.ne (List.mem_singleton.1 hnew)
  | leave number => exact h
  | poll number => exact Feed.attached_poll e.feed number ▸ h

/-! ## Any events -/

theorem tracked_after (h : e.feed.Tracked) (events : List Event) :
    (e.after events).feed.Tracked := by
  induction events generalizing e with
  | nil => exact h
  | cons event later ih => exact ih (tracked_react h event)

/-- Subscribers are numbered in the order in which they come. -/
theorem length_after (e : Engine) (events : List Event) :
    (e.after events).feed.mailboxes.length =
      e.feed.mailboxes.length + events.countP Event.isSubscription := by
  induction events generalizing e with
  | nil => rfl
  | cons event later ih =>
    rw [after_cons, ih, length_react, List.countP_cons, Nat.add_assoc, Nat.add_comm (ite ..)]

theorem lt_length_react (event : Event) (hn : n < e.feed.mailboxes.length) :
    n < (e.react event).feed.mailboxes.length :=
  Nat.lt_of_lt_of_le hn (length_react e event ▸ Nat.le_add_right ..)

theorem isHeld_after (events : List Event) (hn : n < e.feed.mailboxes.length) :
    (e.after events).feed.isHeld n ↔ e.feed.isHeld n ∧ .leave n ∉ events := by
  induction events generalizing e with
  | nil => simp
  | cons event later ih =>
    rw [after_cons, ih (lt_length_react event hn), isHeld_react event hn, List.mem_cons, not_or,
      and_assoc, ne_comm]

/-- **A mailbox that is still held got all that was announced.** -/
theorem deliveredTo_after_of_isHeld (h : e.feed.Tracked) (events : List Event)
    (hn : n < e.feed.mailboxes.length) (hheld : (e.after events).feed.isHeld n) :
    (e.after events).feed.deliveredTo n = e.feed.deliveredTo n ++ e.announcedAll events := by
  -- a mailbox that is held at the end was held all along, so it missed nothing
  have hbefore : e.feed.isHeld n := ((isHeld_after events hn).1 hheld).1
  induction events generalizing e with
  | nil => exact (List.append_nil _).symm
  | cons event later ih =>
    have hn' := lt_length_react event hn
    rw [after_cons, ih (tracked_react h event) hn' hheld ((isHeld_after later hn').1 hheld).1,
      deliveredTo_react h event hn, if_pos hbefore, announcedAll, List.append_assoc]

/-- **A mailbox that is not held gets nothing** and stays off the list. -/
theorem unchanged_after_of_not_isHeld (h : e.feed.Tracked) (events : List Event)
    (hn : n < e.feed.mailboxes.length) (hheld : ¬ e.feed.isHeld n) :
    (e.after events).feed.deliveredTo n = e.feed.deliveredTo n ∧
      (n ∈ (e.after events).feed.attached → n ∈ e.feed.attached) := by
  induction events generalizing e with
  | nil => exact ⟨rfl, id⟩
  | cons event later ih =>
    have hstill : ¬ (e.react event).feed.isHeld n :=
      fun hafter => hheld ((isHeld_react event hn).1 hafter).1
    obtain ⟨hdelivered, hattached⟩ := ih (tracked_react h event) (lt_length_react event hn) hstill
    rw [deliveredTo_react h event hn, if_neg hheld, List.append_nil] at hdelivered
    exact ⟨hdelivered, fun hmem => mem_attached_of_react hn (hattached hmem)⟩

theorem tracked_new (h : Engine.new d = .ok fresh) : fresh.feed.Tracked := by
  rw [feed_of_new h]
  exact Feed.tracked_empty

/-- The number of the next subscriber is how many have come. -/
theorem length_after_new (hnew : Engine.new d = .ok fresh) (events : List Event) :
    (fresh.after events).feed.mailboxes.length = events.countP Event.isSubscription := by
  rw [length_after, feed_of_new hnew]
  exact Nat.zero_add _

/-! ## From a subscription on -/

section Subscribe

variable (e) (held : Bool)

/-- The number of a new subscriber is there. -/
theorem length_lt_subscribe :
    e.feed.mailboxes.length < (e.subscribe held).feed.mailboxes.length :=
  Nat.lt_of_lt_of_eq (Nat.lt_succ_self _) (Feed.length_subscribe ..).symm

theorem isHeld_subscribe : (e.subscribe held).feed.isHeld e.feed.mailboxes.length = held :=
  (Feed.isHeld_subscribe ..).trans (if_pos rfl)

/-- A new subscriber whose mailbox is held has the snapshot that it finds. -/
theorem deliveredTo_subscribe :
    (e.subscribe held).feed.deliveredTo e.feed.mailboxes.length =
      if held then [e.snapshot] else [] :=
  (Feed.deliveredTo_subscribe ..).trans (if_pos rfl)

end Subscribe

/-- A new subscriber whose mailbox is not held is not attached. -/
theorem not_mem_attached_subscribe (h : e.feed.Tracked) :
    e.feed.mailboxes.length ∉ (e.subscribe false).feed.attached :=
  fun hmem => Nat.lt_irrefl _ (h.attached_lt _ hmem)

/-- A subscriber still holds its mailbox if it held it when it came and did not leave since. -/
theorem isHeld_after_subscribe (e : Engine) (held : Bool) (later : List Event) :
    ((e.subscribe held).after later).feed.isHeld e.feed.mailboxes.length ↔
      held ∧ .leave e.feed.mailboxes.length ∉ later := by
  rw [isHeld_after later (length_lt_subscribe e held), isHeld_subscribe]

/-- **A subscriber that still holds its mailbox** was sent the snapshot that it found and all that
was announced since. -/
theorem deliveredTo_after_subscribe (h : e.feed.Tracked) {held : Bool} {later : List Event}
    (hheld : ((e.subscribe held).after later).feed.isHeld e.feed.mailboxes.length) :
    ((e.subscribe held).after later).feed.deliveredTo e.feed.mailboxes.length =
      e.snapshot :: (e.subscribe held).announcedAll later := by
  obtain rfl : held = true := ((isHeld_after_subscribe e held later).1 hheld).1
  have htracked : (e.subscribe true).feed.Tracked := h.subscribe true e.snapshot
  rw [deliveredTo_after_of_isHeld htracked later (length_lt_subscribe e true) hheld,
    deliveredTo_subscribe, if_pos rfl, List.singleton_append]

/-- **A subscriber whose mailbox was given up before it came** is never attached and is sent
nothing. -/
theorem not_attached_after_subscribe (h : e.feed.Tracked) (later : List Event) :
    e.feed.mailboxes.length ∉ ((e.subscribe false).after later).feed.attached ∧
      ((e.subscribe false).after later).feed.deliveredTo e.feed.mailboxes.length = [] := by
  have hheld : ¬ (e.subscribe false).feed.isHeld e.feed.mailboxes.length := by
    rw [isHeld_subscribe]
    exact Bool.false_ne_true
  obtain ⟨hdelivered, hattached⟩ := unchanged_after_of_not_isHeld
    (h.subscribe false e.snapshot) later (length_lt_subscribe e false) hheld
  refine ⟨fun hmem => not_mem_attached_subscribe h (hattached hmem), hdelivered.trans ?_⟩
  rw [deliveredTo_subscribe, if_neg Bool.false_ne_true]

/-- **Subscribers are sent every snapshot from when they came.** Through any events, a subscriber
holds its mailbox if it held it when it came and did not leave since. While it does, it has been
sent the snapshot that it found and then one for each accepted batch and each request to publish,
in this order, and nothing else; a refused batch leaves the engine as it was. One that came with a
mailbox that was not held is not attached and is sent nothing. Right after an accepted batch or a
request to publish the attached mailboxes are just those that are held, in order. -/
theorem held_mailboxes_hold_every_snapshot (hnew : Engine.new d = .ok fresh)
    (events : List Event) :
    let e := fresh.after events
    (∀ before (held : Bool) later, events = before ++ .subscribe held :: later →
      let start := fresh.after before
      let number := before.countP Event.isSubscription
      (e.feed.isHeld number ↔ held ∧ .leave number ∉ later) ∧
      (e.feed.isHeld number →
        e.feed.deliveredTo number = start.snapshot :: (start.subscribe held).announcedAll later) ∧
      (held = false → number ∉ e.feed.attached ∧ e.feed.deliveredTo number = [])) ∧
    e.feed.mailboxes.length = events.countP Event.isSubscription ∧
    (∀ batch cause, e.apply batch = .error cause →
      e.edit batch = (.error cause, e) ∧ e.react (.edit batch) = e) ∧
    (∀ batch report edited, e.apply batch = .ok (report, edited) →
      edited.feed.attached =
        (List.range edited.feed.mailboxes.length).filter edited.feed.isHeld) ∧
    e.publish.feed.attached =
      (List.range e.publish.feed.mailboxes.length).filter e.publish.feed.isHeld := by
  intro e
  have htracked : e.feed.Tracked := tracked_after (tracked_new hnew) events
  refine ⟨fun before held later hevents => ?_, length_after_new hnew events,
    fun batch cause hcause => ⟨(edit_of_apply_eq_error hcause).2, submit_of_apply_eq_error hcause⟩,
    fun batch report edited happly => ?_, htracked.attached_send e.snapshot⟩
  · -- split the run where the subscriber comes; its number is how many came before
    intro start number
    have hstart : start.feed.Tracked := tracked_after (tracked_new hnew) before
    have hnumber : start.feed.mailboxes.length = number := length_after_new hnew before
    have he : e = (start.subscribe held).after later := by
      rw [show e = fresh.after events from rfl, hevents, after_append]
      rfl
    rw [he, ← hnumber]
    refine ⟨isHeld_after_subscribe start held later, deliveredTo_after_subscribe hstart, ?_⟩
    rintro rfl
    exact not_attached_after_subscribe hstart later
  · obtain ⟨_, h⟩ := accepts_of_apply happly
    rw [h.feed_eq]
    exact htracked.attached_send edited.snapshot

/-- Of three subscribers the first stays and is sent the snapshot of the empty sheet and then twice
that with the number, the second came with a mailbox that was not held, and the third left. -/
theorem snapshots_of_first_subscriber :
    let d : Dimensions := ⟨2, 1, by decide, by decide⟩
    let batch : Batch := .ofList [("A1", "5")]
    let later : List Event :=
      [.subscribe false, .edit batch, .subscribe true, .leave 2, .edit ∅, .publish]
    ∃ fresh report edited, Engine.new d = .ok fresh ∧
      (fresh.after [.subscribe true, .subscribe false]).apply batch = .ok (report, edited) ∧
      (fresh.after (.subscribe true :: later)).feed.deliveredTo 0 =
        [fresh.snapshot, edited.snapshot, edited.snapshot] ∧
      (fresh.after (.subscribe true :: later)).feed.deliveredTo 1 = [] ∧
      (fresh.after (.subscribe true :: later)).feed.attached = [0] := by
  intro d batch later
  obtain ⟨fresh, hnew⟩ := exists_new (d := d) (by decide)
  let start : Engine := fresh.after [.subscribe true, .subscribe false]
  have hstart : Sound fresh start := sound_after hnew _
  have htexts : start.texts ∪ batch = batch := union_texts_of_new hnew batch
  obtain ⟨report, edited, happly⟩ : ∃ report edited, start.apply batch = .ok (report, edited) := by
    refine hstart.exists_apply (by decide +kernel) ?_
    rw [htexts]
    exact Edges.acyclic_of_rank (fun _ => 0) (by decide +kernel)
  obtain ⟨hsent, hlength, -⟩ := held_mailboxes_hold_every_snapshot hnew (.subscribe true :: later)
  obtain ⟨hfirst, hfirstsent, -⟩ := hsent [] true later rfl
  obtain ⟨hsecond, -, hsecondsent⟩ := hsent [.subscribe true] false later.tail rfl
  obtain ⟨hthird, -, -⟩ :=
    hsent [.subscribe true, .subscribe false, .edit batch] true [.leave 2, .edit ∅, .publish] rfl
  obtain ⟨-, -, -, -, hattached⟩ :=
    held_mailboxes_hold_every_snapshot hnew (.subscribe true :: later.dropLast)
  let last : Engine := fresh.after (.subscribe true :: later)
  have hstays : last.feed.isHeld 0 := hfirst.2 ⟨rfl, by simp [later]⟩
  have hgone : ¬ last.feed.isHeld 1 := fun hheld => Bool.false_ne_true (hsecond.1 hheld).1
  have hleft : ¬ last.feed.isHeld 2 := fun hheld => (hthird.1 hheld).2 List.mem_cons_self
  refine ⟨fresh, report, edited, hnew, happly, (hfirstsent hstays).trans ?_, (hsecondsent rfl).2,
    ?_⟩
  · -- the batch with the number is accepted, and the empty one is refused
    let left : Engine := (edited.subscribe true).leave 2
    have hempty : left.apply ∅ = .error .emptyBatch := apply_of_isEmpty (by decide +kernel) left
    have hedited : start.react (.edit batch) = edited := submit_eq_of_apply happly
    have hrefused : left.react (.edit ∅) = left := submit_of_apply_eq_error hempty
    change fresh.snapshot :: (start.announced (.edit batch) ++
      (start.react (.edit batch)).announcedAll [.subscribe true, .leave 2, .edit ∅, .publish]) = _
    rw [announced_of_apply_eq_ok happly, hedited]
    change fresh.snapshot :: edited.snapshot ::
      (left.announced (.edit ∅) ++ (left.react (.edit ∅)).announcedAll [.publish]) = _
    rw [announced_of_apply_eq_error hempty, hrefused]
    rfl
  · -- the last event is a request to publish, after which only the first is on the list
    refine hattached.trans ?_
    change (List.range last.feed.mailboxes.length).filter last.feed.isHeld = [0]
    rw [hlength, show List.range _ = [0, 1, 2] from rfl, List.filter_cons_of_pos hstays,
      List.filter_cons_of_neg hgone, List.filter_cons_of_neg hleft, List.filter_nil]

end Engine

end Spreadsheet
