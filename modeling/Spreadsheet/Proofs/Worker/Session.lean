import Spreadsheet.Proofs.Engine.Commands

/-! # Sessions
A **session** is a worker together with all that its clients did and what came of it. Clients make
requests, which enter the queue as room permits, are told replies or give up; subscribers take what
was delivered and leave; the worker carries out requests and is stopped: each of these is an
**action**, and they come in any order. Each request of a session has a ticket, its place among all
requests. Of the requests of one client that stand in line the earliest enters first. -/

namespace Spreadsheet

/-- What a client, a subscriber or the worker does next. -/
inductive Action where
  /-- A client makes a request. -/
  | request (client : Nat) (c : Command)
  /-- The request under a ticket enters the queue. -/
  | enter (ticket : Nat)
  /-- The worker carries out the request at the head of the queue. -/
  | serve
  /-- The owner of a ticket looks for an answer. -/
  | receive (ticket : Nat)
  /-- The owner of a ticket gives up. -/
  | giveUp (ticket : Nat)
  /-- A subscriber takes what was delivered to it. -/
  | poll (number : Nat)
  /-- A subscriber gives up its mailbox. -/
  | leave (number : Nat)
  /-- The worker is stopped. -/
  | stop

/-- A worker and what has happened so far. -/
structure Session where
  /-- The worker. -/
  worker : Worker
  /-- All requests in the order in which they were made, each with its client. -/
  sent : List (Nat × Command)
  /-- The requests that entered the queue, in order, each with its ticket. -/
  arrived : List (Nat × Command)
  /-- What happened to the engine. -/
  history : List Turn
  /-- What clients were told, each under its ticket. -/
  answers : List (Nat × Except SheetError Reply)

namespace Session

/-- The session at the start. -/
def start (w : Worker) : Session := ⟨w, [], [], [], []⟩

/-- The client that made the request under a ticket. -/
def client? (s : Session) (ticket : Nat) : Option Nat := s.sent[ticket]?.map (·.1)

/-- The requests that were carried out, in order, each with its ticket. -/
def served (s : Session) : List (Nat × Command) := s.history.filterMap Turn.request?

/-- No earlier request of the same client stands in line. -/
def IsNext (s : Session) (ticket : Nat) : Prop :=
  ∀ request ∈ s.worker.line, request.1 < ticket → s.client? request.1 ≠ s.client? ticket

instance (s : Session) (ticket : Nat) : Decidable (s.IsNext ticket) :=
  inferInstanceAs (Decidable (∀ request ∈ s.worker.line, _))

/-- The session after an action. -/
def act (s : Session) : Action → Session
  | .request client c =>
    match s.worker.send c with
    | (some _, worker) => { s with worker, sent := s.sent ++ [(client, c)] }
    | (none, worker) =>
      { s with
        worker
        sent := s.sent ++ [(client, c)]
        answers := s.answers ++ [(s.sent.length, .error .engineStopped)] }
  | .enter ticket =>
    if s.IsNext ticket then
      { s with
        worker := s.worker.enter ticket
        arrived := s.arrived ++ (s.worker.entrant? ticket).toList }
    else s
  | .serve =>
    match s.worker.queue with
    | [] => s
    | (ticket, c) :: _ =>
      let lost := if ticket ∈ s.worker.awaited then [] else (s.worker.engine.execute c).1.turns
      { s with
        worker := s.worker.step
        history := s.history ++ .carriedOut ticket c :: lost }
  | .receive ticket =>
    match s.worker.receive ticket with
    | (some answer, worker) => { s with worker, answers := s.answers ++ [(ticket, answer)] }
    | (none, worker) => { s with worker }
  | .giveUp ticket =>
    { s with
      worker := s.worker.abandon ticket
      history := s.history ++ ((s.worker.reply? ticket).map Reply.turns).getD [] }
  | .poll number =>
    { s with worker := (s.worker.poll number).2, history := s.history ++ [.polled number] }
  | .leave number =>
    { s with worker := s.worker.leave number, history := s.history ++ [.left number] }
  | .stop => { s with worker := s.worker.stop }

/-- The session after actions one after another. -/
def run (s : Session) (actions : List Action) : Session := actions.foldl act s

/-! ## What each action does -/

variable {s : Session} {ticket : Nat} {c : Command}

/-- While the worker runs a request joins the line under the next ticket. -/
theorem act_request_of_running (hrunning : s.worker.running) (client : Nat) (c : Command) :
    s.act (.request client c) = { s with
      worker := { s.worker with
        line := s.worker.line ++ [(s.worker.issued, c)]
        issued := s.worker.issued + 1
        awaited := s.worker.awaited ++ [s.worker.issued] }
      sent := s.sent ++ [(client, c)] } := by
  simp only [act, Worker.send, hrunning, if_true]

/-- After the worker has stopped a request is refused. -/
theorem act_request_of_stopped (hstopped : s.worker.running = false) (client : Nat) (c : Command) :
    s.act (.request client c) = { s with
      sent := s.sent ++ [(client, c)]
      answers := s.answers ++ [(s.sent.length, .error .engineStopped)] } := by
  simp only [act, Worker.send, hstopped, Bool.false_eq_true, if_false]

/-- A request enters the queue if it stands in line, is the next of its client and finds room;
otherwise nothing happens. -/
theorem act_enter (s : Session) (ticket : Nat) :
    s.act (.enter ticket) = s ∨
    ∃ c before after, s.worker.line = before ++ (ticket, c) :: after ∧ s.IsNext ticket ∧
      s.worker.queue.length < Worker.capacity ∧
      s.act (.enter ticket) = { s with
        worker := { s.worker with
          line := before ++ after
          queue := s.worker.queue ++ [(ticket, c)] }
        arrived := s.arrived ++ [(ticket, c)] } := by
  by_cases hnext : s.IsNext ticket
  · cases hentrant : s.worker.entrant? ticket with
    | none =>
      left
      simp only [act, if_pos hnext, Worker.enter, hentrant, Option.toList_none, List.append_nil]
    | some request =>
      right
      have hroom : s.worker.queue.length < Worker.capacity := by
        by_contra hfull
        rw [Worker.entrant?, if_neg hfull] at hentrant
        exact nomatch hentrant
      rw [Worker.entrant?, if_pos hroom] at hentrant
      obtain ⟨hticket, before, after, hline, hbefore⟩ :=
        List.find?_eq_some_iff_append.1 hentrant
      obtain ⟨number, c⟩ := request
      obtain rfl : number = ticket := beq_iff_eq.1 hticket
      refine ⟨c, before, after, hline, hnext, hroom, ?_⟩
      have herase : s.worker.line.eraseP (·.1 == number) = before ++ after := by
        rw [hline, List.eraseP_append_right _ (by simpa using hbefore)]
        exact congrArg (before ++ ·) (List.eraseP_cons_of_pos hticket)
      simp only [act, if_pos hnext, Worker.enter, Worker.entrant?, if_pos hroom, hentrant,
        Option.toList_some, herase]
  · left
    simp only [act, if_neg hnext]

/-- The worker carries out the head of the queue, if there is one; the reply is kept if it is
awaited and lost otherwise. -/
theorem act_serve (s : Session) :
    (s.worker.queue = [] ∧ s.act .serve = s) ∨
    ∃ ticket c queue replies lost, s.worker.queue = (ticket, c) :: queue ∧
      lost.filterMap Turn.request? = [] ∧
      (ticket ∈ s.worker.awaited ∧
          replies = s.worker.replies ++ [(ticket, (s.worker.engine.execute c).1)] ∨
        ticket ∉ s.worker.awaited ∧ replies = s.worker.replies) ∧
      s.act .serve = { s with
        worker := { s.worker with
          engine := (s.worker.engine.execute c).2.through lost, queue, replies }
        history := s.history ++ .carriedOut ticket c :: lost } := by
  cases hqueue : s.worker.queue with
  | nil => exact .inl ⟨rfl, by simp only [act, hqueue]⟩
  | cons request queue =>
    obtain ⟨ticket, c⟩ := request
    right
    by_cases hawaited : ticket ∈ s.worker.awaited
    · refine ⟨ticket, c, queue, _, [], rfl, rfl, .inl ⟨hawaited, rfl⟩, ?_⟩
      simp only [act, Worker.step, hqueue, if_pos hawaited]
      rfl
    · refine ⟨ticket, c, queue, _, (s.worker.engine.execute c).1.turns, rfl,
        Reply.filterMap_turns _, .inr ⟨hawaited, rfl⟩, ?_⟩
      simp only [act, Worker.step, hqueue, if_neg hawaited, Engine.discard_eq_through]

theorem mem_replies_of_reply? {w : Worker} {reply : Reply} (h : w.reply? ticket = some reply) :
    (ticket, reply) ∈ w.replies := by
  obtain ⟨⟨number, other⟩, hfound, rfl⟩ := Option.map_eq_some_iff.1 h
  have hticket := List.find?_some hfound
  obtain rfl : number = ticket := beq_iff_eq.1 hticket
  exact List.mem_of_find?_eq_some hfound

theorem not_mem_replies_of_reply? {w : Worker} (h : w.reply? ticket = none) (reply : Reply) :
    (ticket, reply) ∉ w.replies := by
  intro hmem
  have hnone := List.find?_eq_none.1 (Option.map_eq_none_iff.1 h) _ hmem
  exact hnone (beq_self_eq_true ticket)

/-- The owner of a ticket that waits is told the reply, or that the worker has stopped if there is
none and the request waits no longer; otherwise nothing happens. -/
theorem act_receive (s : Session) (ticket : Nat) :
    s.act (.receive ticket) = s ∨
    ∃ answer, ticket ∈ s.worker.awaited ∧
      ((∃ reply, answer = .ok reply ∧ (ticket, reply) ∈ s.worker.replies) ∨
        (answer = .error .engineStopped ∧ (∀ reply, (ticket, reply) ∉ s.worker.replies) ∧
          ∀ c, (ticket, c) ∉ s.worker.line ++ s.worker.queue)) ∧
      s.act (.receive ticket) = { s with
        worker := s.worker.forget ticket
        answers := s.answers ++ [(ticket, answer)] } := by
  by_cases hawaited : ticket ∈ s.worker.awaited
  · cases hreply : s.worker.reply? ticket with
    | some reply =>
      refine .inr ⟨.ok reply, hawaited, .inl ⟨reply, rfl, mem_replies_of_reply? hreply⟩, ?_⟩
      simp only [act, Worker.receive, if_pos hawaited, hreply]
    | none =>
      by_cases hwaits : (s.worker.line ++ s.worker.queue).any (·.1 == ticket)
      · left
        simp only [act, Worker.receive, if_pos hawaited, hreply, if_pos hwaits]
      · refine .inr ⟨.error .engineStopped, hawaited, .inr ⟨rfl, not_mem_replies_of_reply? hreply,
          fun c hmem => hwaits (List.any_eq_true.2 ⟨_, hmem, beq_self_eq_true ticket⟩)⟩, ?_⟩
        simp only [act, Worker.receive, if_pos hawaited, hreply, if_neg hwaits]
  · left
    simp only [act, Worker.receive, if_neg hawaited]

/-- Who gives up is forgotten, and a reply that is there is lost. -/
theorem act_giveUp (s : Session) (ticket : Nat) :
    ∃ turns, turns.filterMap Turn.request? = [] ∧ s.act (.giveUp ticket) = { s with
      worker := { s.worker.forget ticket with engine := s.worker.engine.through turns }
      history := s.history ++ turns } := by
  cases hreply : s.worker.reply? ticket with
  | some reply =>
    refine ⟨reply.turns, reply.filterMap_turns, ?_⟩
    simp only [act, Worker.abandon, hreply, Option.map_some, Option.getD_some,
      Engine.discard_eq_through]
  | none =>
    refine ⟨[], rfl, ?_⟩
    simp only [act, Worker.abandon, hreply, Option.map_none, Option.getD_none]
    rfl

end Session

end Spreadsheet
