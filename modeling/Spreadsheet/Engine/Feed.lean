/-! # Feeds
A **feed** carries messages from one sender to its subscribers. Each subscriber has a **mailbox**
that keeps what was delivered, in order; the mailbox is **held** until its owner leaves. The sender
keeps a list of **attached** mailboxes and learns only by sending that one is no longer held: then
it is taken off the list. -/

namespace Spreadsheet

/-- The receiving end of a subscription. -/
structure Mailbox (α : Type) where
  /-- Whether its owner still wants messages. -/
  held : Bool
  /-- What was delivered, oldest first. -/
  delivered : List α
  /-- How many of the delivered messages the owner has taken. -/
  taken : Nat

/-- A sender with its subscribers, which are numbered in the order in which they came. -/
structure Feed (α : Type) where
  /-- The mailboxes of all subscribers there ever were. -/
  mailboxes : List (Mailbox α)
  /-- The numbers of the mailboxes that messages are sent to, in the order of attachment. -/
  attached : List Nat

namespace Feed

variable {α : Type}

/-- The feed without subscribers. -/
def empty : Feed α := ⟨[], []⟩

/-- Whether the owner of a mailbox still wants messages. -/
def isHeld (f : Feed α) (n : Nat) : Bool :=
  match f.mailboxes[n]? with
  | some m => m.held
  | none => false

/-- The feed with one mailbox changed. -/
def modify (f : Feed α) (n : Nat) (change : Mailbox α → Mailbox α) : Feed α :=
  { f with mailboxes := f.mailboxes.modify n change }

/-- A new subscriber, who is sent a first message at once. One whose mailbox is not held is not
attached. -/
def subscribe (f : Feed α) (held : Bool) (first : α) : Feed α where
  mailboxes := f.mailboxes ++ [⟨held, if held then [first] else [], 0⟩]
  attached := if held then f.attached ++ [f.mailboxes.length] else f.attached

/-- Sends a message to every attached mailbox that is held, and takes the others off the list. -/
def send (f : Feed α) (message : α) : Feed α :=
  let live := f.attached.filter f.isHeld
  { mailboxes := f.mailboxes.mapIdx fun n m =>
      if n ∈ live then { m with delivered := m.delivered ++ [message] } else m
    attached := live }

/-- The owner of a mailbox gives it up. -/
def leave (f : Feed α) (n : Nat) : Feed α := f.modify n ({ · with held := false })

/-- The sender is gone: no mailbox is attached any more. -/
def close (f : Feed α) : Feed α := { f with attached := [] }

/-- The number of mailboxes that the sender knows of. -/
def attachedCount (f : Feed α) : Nat := f.attached.length

/-- For each mailbox that is held, in order of attachment, whether no message can come any more. -/
def closures (f : Feed α) : List Bool :=
  (List.range f.mailboxes.length).filter f.isHeld |>.map fun n => !f.attached.contains n

/-- The messages that were delivered to a mailbox and not taken yet, which are taken then; `none`
for a mailbox that is not held. -/
def poll (f : Feed α) (n : Nat) : Option (List α) × Feed α :=
  match f.mailboxes[n]? with
  | some m =>
    if m.held then
      (some (m.delivered.drop m.taken), f.modify n fun m => { m with taken := m.delivered.length })
    else (none, f)
  | none => (none, f)

@[simp] theorem attached_leave (f : Feed α) (n : Nat) : (f.leave n).attached = f.attached := rfl

@[simp] theorem attached_send (f : Feed α) (message : α) :
    (f.send message).attached = f.attached.filter f.isHeld := rfl

end Feed

end Spreadsheet
