import Spreadsheet.Proofs.Engine.Commands

/-! # Workers with one client at a time
A worker is **idle** if it runs and nobody waits for anything. Whoever asks an idle worker is
answered at once with what the engine replies, and the worker is idle again. -/

namespace Spreadsheet

namespace Worker

variable {w : Worker} {d : Dimensions}

/-- The worker runs and nobody waits. -/
structure Idle (w : Worker) : Prop where
  /-- The worker runs. -/
  running : w.running = true
  /-- No request stands in line. -/
  line_eq : w.line = []
  /-- No request is in the queue. -/
  queue_eq : w.queue = []
  /-- Nobody waits for a reply. -/
  awaited_eq : w.awaited = []
  /-- No reply is kept. -/
  replies_eq : w.replies = []

/-- A spawned worker is on a new engine and nothing has happened yet. -/
theorem eq_of_spawn (h : spawn d = .ok w) :
    ∃ e, Engine.new d = .ok e ∧ w = ⟨e, true, [], [], 0, [], []⟩ := by
  unfold spawn at h
  cases hnew : Engine.new d with
  | error cause =>
    rw [hnew] at h
    exact nomatch h
  | ok e =>
    rw [hnew] at h
    exact ⟨e, rfl, (Except.ok.inj h).symm⟩

theorem idle_of_spawn (h : spawn d = .ok w) : w.Idle := by
  obtain ⟨e, -, rfl⟩ := eq_of_spawn h
  exact ⟨rfl, rfl, rfl, rfl, rfl⟩

theorem new_of_spawn (h : spawn d = .ok w) : Engine.new d = .ok w.engine := by
  obtain ⟨e, hnew, rfl⟩ := eq_of_spawn h
  exact hnew

namespace Idle

/-- An idle worker stays idle whatever becomes of the engine. -/
theorem update (h : w.Idle) (engine : Engine) (issued : Nat) : Idle { w with engine, issued } :=
  ⟨h.running, h.line_eq, h.queue_eq, h.awaited_eq, h.replies_eq⟩

/-- **An idle worker answers at once.** -/
theorem ask (h : w.Idle) (c : Command) :
    w.ask c = (.ok (w.engine.execute c).1,
      { w with engine := (w.engine.execute c).2, issued := w.issued + 1 }) := by
  obtain ⟨engine, running, line, queue, issued, awaited, replies⟩ := w
  obtain ⟨rfl, rfl, rfl, rfl, rfl⟩ := h
  simp [Worker.ask, send, drain, steps, enter, entrant?, capacity, step, receive, reply?, forget]

theorem submit (h : w.Idle) (batch : Batch) :
    w.submit batch = ((w.engine.apply batch).map (·.1),
      { w with engine := w.engine.submit batch, issued := w.issued + 1 }) := by
  rw [Worker.submit, request, h.ask, ← Engine.snd_execute_edit, ← Engine.report_execute_edit]
  rfl

theorem snapshot (h : w.Idle) :
    w.snapshot = (.ok w.engine.snapshot, { w with issued := w.issued + 1 }) := by
  rw [Worker.snapshot, request, h.ask]
  rfl

theorem cell (h : w.Idle) (key : String) :
    w.cell key = (.ok (w.engine.cell key), { w with issued := w.issued + 1 }) := by
  rw [Worker.cell, request, h.ask]
  rfl

end Idle

end Worker

end Spreadsheet
