import Spreadsheet.Proofs.Engine.Run

/-! # Engines through any events
Batches come in, subscribers come, take what was delivered to them and leave, and the engine is
asked to publish: each of these is an **event**. Only an accepted batch touches the texts, the
graph, the values and the shown texts, all else is a matter of the feed; so an engine stays sound
through any events. -/

namespace Spreadsheet

/-- What can happen to an engine. -/
inductive Event where
  /-- A batch comes in. -/
  | edit (batch : Batch)
  /-- The engine is asked to send its snapshot. -/
  | publish
  /-- A subscriber comes, whose mailbox is held or was given up before. -/
  | subscribe (held : Bool)
  /-- A subscriber gives up its mailbox. -/
  | leave (number : Nat)
  /-- A subscriber takes what was delivered to it. -/
  | poll (number : Nat)

namespace Engine

variable {fresh e edited : Engine} {batch : Batch} {report : Report} {d : Dimensions}

/-- The engine after an event. -/
def react (e : Engine) : Event → Engine
  | .edit batch => e.submit batch
  | .publish => e.publish
  | .subscribe held => e.subscribe held
  | .leave number => e.leave number
  | .poll number => (e.poll number).2

/-- The engine after events one after another. -/
def after (e : Engine) (events : List Event) : Engine := events.foldl react e

@[simp] theorem after_nil (e : Engine) : e.after [] = e := rfl

@[simp] theorem after_cons (e : Engine) (event : Event) (events : List Event) :
    e.after (event :: events) = (e.react event).after events := rfl

theorem after_edit (e : Engine) (batch : Batch) (events : List Event) :
    e.after (.edit batch :: events) = (e.submit batch).after events := rfl

theorem after_append (e : Engine) (events more : List Event) :
    e.after (events ++ more) = (e.after events).after more := List.foldl_append

theorem apply_of_isEmpty (h : batch.isEmpty) (e : Engine) : e.apply batch = .error .emptyBatch := by
  rw [apply, edit_of_isEmpty h]
  rfl

/-- Soundness is no matter of the feed. -/
theorem Sound.of_feed (hsound : Sound fresh e) (feed : Feed Snapshot) :
    Sound fresh { e with feed } :=
  ⟨hsound.faithful, hsound.settled, hsound.shows_values, hsound.shows_blanks⟩

theorem Sound.react (hsound : Sound fresh e) (event : Event) : Sound fresh (e.react event) := by
  cases event with
  | edit batch => exact hsound.submit batch
  | publish => exact hsound.of_feed (e.feed.send e.snapshot)
  | subscribe held => exact hsound.of_feed (e.feed.subscribe held e.snapshot)
  | leave number => exact hsound.of_feed (e.feed.leave number)
  | poll number => exact hsound.of_feed (e.feed.poll number).2

/-- **Every run keeps an engine sound**, whoever subscribes meanwhile. -/
theorem sound_after (hnew : Engine.new d = .ok fresh) (events : List Event) :
    Sound fresh (fresh.after events) :=
  List.foldlRecOn events Engine.react (sound_new hnew) fun _ h event _ => h.react event

end Engine

end Spreadsheet
