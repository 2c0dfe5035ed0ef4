import Spreadsheet.Engine.Worker
import Spreadsheet.Proofs.Engine.Mailboxes
import Spreadsheet.Proofs.Engine.Run

/-! # Commands one after another
An engine carries out commands one by one, and between them subscribers take what was delivered or
give up their mailboxes: a **history** is made of such **turns**. Two engines hold the **same
sheet** if they differ only in who holds a mailbox and what was delivered there. A command gets the
same reply from both, so as far as sheets and replies go a history is no more than its commands. -/

namespace Spreadsheet

/-- What can happen to the engine of a worker. -/
inductive Turn where
  /-- The request under a ticket is carried out. -/
  | carriedOut (ticket : Nat) (c : Command)
  /-- A subscriber takes what was delivered to it. -/
  | polled (number : Nat)
  /-- A mailbox is given up. -/
  | left (number : Nat)

/-- The request that was carried out. -/
def Turn.request? : Turn → Option (Nat × Command)
  | carriedOut ticket c => some (ticket, c)
  | polled _ | left _ => none

/-- The turns that a reply takes if nobody receives it. -/
def Reply.turns : Reply → List Turn
  | subscribed number => [.left number]
  | edited _ | snapshot _ | cell _ => []

@[simp] theorem Reply.filterMap_turns (r : Reply) : r.turns.filterMap Turn.request? = [] := by
  cases r <;> rfl

namespace Engine

variable {e e' edited : Engine} {batch : Batch} {report : Report}

/-! ## Same sheets -/

/-- Two engines agree on all but who holds a mailbox and what was delivered there. -/
structure SameSheet (e e' : Engine) : Prop where
  /-- The texts are the same. -/
  texts_eq : e.texts = e'.texts
  /-- The formulas and their edges are the same. -/
  graph_eq : e.graph = e'.graph
  /-- The values are the same. -/
  values_eq : e.values = e'.values
  /-- The same texts are shown. -/
  shown_eq : e.shown = e'.shown
  /-- There were as many subscribers. -/
  length_eq : e.feed.mailboxes.length = e'.feed.mailboxes.length

namespace SameSheet

theorem refl (e : Engine) : e.SameSheet e := ⟨rfl, rfl, rfl, rfl, rfl⟩

theorem trans {e'' : Engine} (h : e.SameSheet e') (h' : e'.SameSheet e'') : e.SameSheet e'' :=
  ⟨h.texts_eq.trans h'.texts_eq, h.graph_eq.trans h'.graph_eq, h.values_eq.trans h'.values_eq,
    h.shown_eq.trans h'.shown_eq, h.length_eq.trans h'.length_eq⟩

theorem snapshot_eq (h : e.SameSheet e') : e.snapshot = e'.snapshot := by
  rw [snapshot, snapshot, h.graph_eq, h.texts_eq, h.shown_eq]

theorem cell_eq (h : e.SameSheet e') (key : String) : e.cell key = e'.cell key := by
  rw [cell, cell, h.graph_eq, h.texts_eq, h.values_eq]

end SameSheet

theorem sameSheet_leave (e : Engine) (number : Nat) : (e.leave number).SameSheet e :=
  ⟨rfl, rfl, rfl, rfl, Feed.length_leave e.feed number⟩

theorem sameSheet_poll (e : Engine) (number : Nat) : (e.poll number).2.SameSheet e :=
  ⟨rfl, rfl, rfl, rfl, Feed.length_poll e.feed number⟩

theorem sameSheet_close (e : Engine) : e.close.SameSheet e := ⟨rfl, rfl, rfl, rfl, rfl⟩

/-! ## Same replies -/

/-- Who subscribes has no part in what becomes of a batch. -/
theorem apply_of_feed (e : Engine) (feed : Feed Snapshot) (batch : Batch) :
    ({ e with feed } : Engine).apply batch =
      (e.apply batch).map fun (report, edited) =>
        (report, { edited with feed := feed.send edited.snapshot }) := by
  cases hempty : batch.isEmpty with
  | true => rw [apply, apply, edit_of_isEmpty hempty, edit_of_isEmpty hempty]; rfl
  | false =>
    rw [apply, apply, edit_eq hempty, edit_eq hempty]
    -- neither the merge nor the schedule looks at the feed
    cases e.graph.merge (.ofFormulas batch) with
    | error cause => rfl
    | ok graph =>
      dsimp only
      cases graph.schedule batch.keys with
      | error cause => rfl
      | ok s => rfl

/-- Engines with the same sheet refuse a batch alike, or accept it with the same report and have
the same sheet then. -/
theorem SameSheet.apply (h : e.SameSheet e') (batch : Batch) :
    (∃ cause, e.apply batch = .error cause ∧ e'.apply batch = .error cause) ∨
    ∃ report edited edited', e.apply batch = .ok (report, edited) ∧
      e'.apply batch = .ok (report, edited') ∧ edited.SameSheet edited' := by
  -- the engines differ in their feeds only
  have heq : e' = { e with feed := e'.feed } := by
    obtain ⟨texts, graph, values, shown, feed, hdim⟩ := e
    obtain ⟨texts', graph', values', shown', feed', hdim'⟩ := e'
    obtain ⟨rfl, rfl, rfl, rfl, -⟩ := h
    rfl
  have happly' := apply_of_feed e e'.feed batch
  rw [← heq] at happly'
  cases happly : e.apply batch with
  | error cause => exact .inl ⟨cause, rfl, by rw [happly', happly]; rfl⟩
  | ok outcome =>
    obtain ⟨report, edited⟩ := outcome
    obtain ⟨s, haccepts⟩ := accepts_of_apply happly
    refine .inr ⟨report, edited, { edited with feed := e'.feed.send edited.snapshot }, rfl,
      by rw [happly', happly]; rfl, rfl, rfl, rfl, rfl, ?_⟩
    rw [haccepts.feed_eq, Feed.length_send, Feed.length_send, h.length_eq]

/-- **Engines with the same sheet give the same reply** to a command, and have the same sheet
then. -/
theorem SameSheet.execute (h : e.SameSheet e') (c : Command) :
    (e.execute c).1 = (e'.execute c).1 ∧ (e.execute c).2.SameSheet (e'.execute c).2 := by
  cases c with
  | edit batch =>
    rcases h.apply batch with
      ⟨cause, happly, happly'⟩ | ⟨report, edited, edited', happly, happly', hedited⟩
    · rw [Engine.execute, Engine.execute, (edit_of_apply_eq_error happly).2,
        (edit_of_apply_eq_error happly').2]
      exact ⟨rfl, h⟩
    · rw [Engine.execute, Engine.execute, edit_of_apply_eq_ok happly, edit_of_apply_eq_ok happly']
      exact ⟨rfl, hedited⟩
  | subscribe =>
    refine ⟨congrArg Reply.subscribed h.length_eq, h.texts_eq, h.graph_eq, h.values_eq,
      h.shown_eq, ?_⟩
    change (e.feed.subscribe true e.snapshot).mailboxes.length =
      (e'.feed.subscribe true e'.snapshot).mailboxes.length
    rw [Feed.length_subscribe, Feed.length_subscribe, h.length_eq]
  | snapshot => exact ⟨congrArg Reply.snapshot h.snapshot_eq, h⟩
  | cell key => exact ⟨congrArg Reply.cell (h.cell_eq key), h⟩

/-- A merge is refused for a circle only. -/
theorem exists_cycle_of_merge {live incoming : Graph} {cause : SheetError}
    (h : live.merge incoming = .error cause) : ∃ cells, cause = .cycle cells := by
  unfold Graph.merge Graph.checkAcyclic at h
  dsimp only at h
  split at h
  · exact nomatch h
  · exact ⟨_, (Except.error.inj h).symm⟩

/-- Cells have no schedule for a circle only. -/
theorem exists_cycle_of_schedule {g : Graph} {roots : List String} {cause : SheetError}
    (h : g.schedule roots = .error cause) : ∃ cells, cause = .cycle cells := by
  unfold Graph.schedule at h
  dsimp only at h
  split at h
  · exact nomatch h
  · exact ⟨_, (Except.error.inj h).symm⟩

/-- A batch is refused because it is empty or would close a circle. -/
theorem cause_of_apply {cause : SheetError} (h : e.apply batch = .error cause) :
    cause = .emptyBatch ∨ ∃ cells, cause = .cycle cells := by
  cases (edit_of_apply_eq_error h).1 with
  | empty => exact .inl rfl
  | merge _ hmerge => exact .inr (exists_cycle_of_merge hmerge)
  | schedule _ _ hschedule => exact .inr (exists_cycle_of_schedule hschedule)

/-- Carrying out an edit is submitting the batch. -/
theorem snd_execute_edit (e : Engine) (batch : Batch) :
    (e.execute (.edit batch)).2 = e.submit batch := rfl

/-- The requester of a batch is told what became of it. -/
theorem report_execute_edit (e : Engine) (batch : Batch) :
    (e.execute (.edit batch)).1.report = (e.apply batch).map (·.1) := by
  rw [execute, apply]
  rcases e.edit batch with ⟨cause | report, edited⟩ <;> rfl

/-- The requester of a batch that was carried out is not told of a stop. -/
theorem report_execute_edit_ne (e : Engine) (batch : Batch) :
    (e.execute (.edit batch)).1.report ≠ .error .engineStopped := by
  rw [report_execute_edit]
  cases happly : e.apply batch with
  | ok outcome => exact nofun
  | error cause =>
    rcases cause_of_apply happly with rfl | ⟨cells, rfl⟩ <;> exact nofun

/-! ## Histories -/

/-- The engine after commands one after another. -/
def executeAll (e : Engine) (commands : List Command) : Engine :=
  commands.foldl (fun e c => (e.execute c).2) e

/-- The engine after a turn. -/
def turn (e : Engine) : Turn → Engine
  | .carriedOut _ c => (e.execute c).2
  | .polled number => (e.poll number).2
  | .left number => e.leave number

/-- The engine after a history. -/
def through (e : Engine) (history : List Turn) : Engine := history.foldl turn e

theorem through_append (e : Engine) (history more : List Turn) :
    e.through (history ++ more) = (e.through history).through more := List.foldl_append

/-- **A history is no more than its commands**, as far as sheets go. -/
theorem SameSheet.through (h : e.SameSheet e') (history : List Turn) :
    (e.through history).SameSheet
      (e'.executeAll ((history.filterMap Turn.request?).map (·.2))) := by
  -- only one of the engines takes the turns without a command, and its sheet stays the same
  induction history generalizing e e' with
  | nil => exact h
  | cons turn history ih =>
    cases turn with
    | carriedOut ticket c => exact ih (h.execute c).2
    | polled number => exact ih ((e.sameSheet_poll number).trans h)
    | left number => exact ih ((e.sameSheet_leave number).trans h)

/-- A reply that nobody receives takes its turns. -/
theorem discard_eq_through (e : Engine) (r : Reply) : e.discard r = e.through r.turns := by
  cases r <;> rfl

/-- Turns without a command may as well come after the feed was closed. -/
theorem close_through {history : List Turn} (h : history.filterMap Turn.request? = []) :
    (e.through history).close = e.close.through history := by
  induction history generalizing e with
  | nil => rfl
  | cons turn history ih =>
    cases turn with
    | carriedOut ticket c => simp [Turn.request?] at h
    | polled number =>
      have hpoll : (e.poll number).2.close = (e.close.poll number).2 := by
        simp only [poll, close, Feed.close_poll]
      exact (ih h).trans (congrArg (·.through history) hpoll)
    | left number => exact ih h

end Engine

end Spreadsheet
