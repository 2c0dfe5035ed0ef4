import Spreadsheet.Proofs.Worker.Idle
import Spreadsheet.Proofs.Worker.Replies

/-! # One engine for all clients
Whatever clients, subscribers and the worker do, and in whatever order, a session is **serial**: it
is as if one engine had carried out the commands of the requests in the order of their arrival, one
after another, and had replied to each at its place. -/

namespace Spreadsheet

namespace Session

variable {first : Engine} {s : Session} {d : Dimensions} {w : Worker}

/-! ## Runs -/

theorem invariants_start (hspawn : Worker.spawn d = .ok w) :
    (start w).InOrder ∧ (start w).Follows w.engine ∧ (start w).Answered w.engine := by
  obtain ⟨e, -, rfl⟩ := Worker.eq_of_spawn hspawn
  exact ⟨inOrder_start e, rfl, answered_start e⟩

/-- **Every run keeps the requests in order, the engine at the end of the history and the answers
right.** -/
theorem invariants_run (h : s.InOrder ∧ s.Follows first ∧ s.Answered first)
    (actions : List Action) :
    (s.run actions).InOrder ∧ (s.run actions).Follows first ∧ (s.run actions).Answered first := by
  induction actions generalizing s with
  | nil => exact h
  | cons a actions ih =>
    obtain ⟨horder, hfollows, hanswered⟩ := h
    exact ih ⟨horder.act a, hfollows.act horder a, hanswered.act hfollows horder a⟩

/-- No action takes back what was sent, what has arrived or what clients were told. -/
theorem prefix_act (s : Session) (a : Action) :
    s.sent <+: (s.act a).sent ∧ s.arrived <+: (s.act a).arrived ∧
      s.answers <+: (s.act a).answers := by
  cases a with
  | request client c =>
    cases hrunning : s.worker.running with
    | true =>
      rw [act_request_of_running hrunning]
      exact ⟨List.prefix_append _ _, List.prefix_refl _, List.prefix_refl _⟩
    | false =>
      rw [act_request_of_stopped hrunning]
      exact ⟨List.prefix_append _ _, List.prefix_refl _, List.prefix_append _ _⟩
  | enter ticket =>
    rcases s.act_enter ticket with heq | ⟨c, before, after, -, -, -, heq⟩ <;> rw [heq]
    · exact ⟨List.prefix_refl _, List.prefix_refl _, List.prefix_refl _⟩
    · exact ⟨List.prefix_refl _, List.prefix_append _ _, List.prefix_refl _⟩
  | serve =>
    rcases s.act_serve with ⟨-, heq⟩ | ⟨_, _, _, _, _, -, -, -, heq⟩ <;> rw [heq] <;>
      exact ⟨List.prefix_refl _, List.prefix_refl _, List.prefix_refl _⟩
  | receive ticket =>
    rcases s.act_receive ticket with heq | ⟨answer, -, -, heq⟩ <;> rw [heq]
    · exact ⟨List.prefix_refl _, List.prefix_refl _, List.prefix_refl _⟩
    · exact ⟨List.prefix_refl _, List.prefix_refl _, List.prefix_append _ _⟩
  | giveUp | poll | leave | stop =>
    exact ⟨List.prefix_refl _, List.prefix_refl _, List.prefix_refl _⟩

/-- No run takes back what was sent, what has arrived or what clients were told. -/
theorem prefix_run (s : Session) (actions : List Action) :
    s.sent <+: (s.run actions).sent ∧ s.arrived <+: (s.run actions).arrived ∧
      s.answers <+: (s.run actions).answers := by
  induction actions generalizing s with
  | nil => exact ⟨List.prefix_refl _, List.prefix_refl _, List.prefix_refl _⟩
  | cons a actions ih =>
    obtain ⟨hsent, harrived, hanswers⟩ := s.prefix_act a
    obtain ⟨hsent', harrived', hanswers'⟩ := ih (s := s.act a)
    exact ⟨hsent.trans hsent', harrived.trans harrived', hanswers.trans hanswers'⟩

/-! ## Answers to batches -/

/-- A request that was carried out is the one that was sent under its ticket. -/
theorem InOrder.eq_of_mem_served (h : s.InOrder) {ticket client : Nat} {c c' : Command}
    (hmem : (ticket, c) ∈ s.served) (hsent : s.sent[ticket]? = some (client, c')) : c = c' := by
  obtain ⟨_, hother⟩ :=
    h.tickets.sent_of_mem _ (List.mem_append_left _ (h.served_prefix.subset hmem))
  exact (Prod.mk.inj (Option.some.inj (hother.symm.trans hsent))).2

/-- A batch whose requester was told of a stop was not applied. -/
theorem Answered.not_served (h : s.Answered first) (horder : s.InOrder) {ticket client : Nat}
    {batch : Batch} {answer : Except SheetError Reply} (hmem : (ticket, answer) ∈ s.answers)
    (hsent : s.sent[ticket]? = some (client, .edit batch))
    (hstopped : answer.bind Reply.report = .error .engineStopped) (c : Command) :
    (ticket, c) ∉ s.served := by
  cases answer with
  | error cause => exact (h.refused ticket cause hmem).2.2 c
  | ok reply =>
    -- a reply to a batch tells its outcome, which never is that the worker has stopped
    obtain ⟨before, c', hbefore, rfl⟩ := h.told ticket reply hmem
    have hserved : (ticket, c') ∈ s.served :=
      hbefore.subset (List.mem_append_right _ (List.mem_singleton_self _))
    obtain rfl := horder.eq_of_mem_served hserved hsent
    exact absurd hstopped (Engine.report_execute_edit_ne _ batch)

/-- Whoever waits for a request that was carried out is told the right reply. -/
theorem Answered.receive_of_mem_served (h : s.Answered first) {ticket : Nat} {c : Command}
    (hmem : (ticket, c) ∈ s.served) (hawaited : ticket ∈ s.worker.awaited) :
    ∃ reply, (s.worker.receive ticket).1 = some (.ok reply) ∧
      Replied first s.served ticket reply := by
  cases hreply : s.worker.reply? ticket with
  | some reply =>
    refine ⟨reply, ?_, h.replied ticket reply (mem_replies_of_reply? hreply)⟩
    rw [Worker.receive, if_pos hawaited, hreply]
  | none =>
    obtain ⟨reply, hready⟩ := h.ready ticket c hmem hawaited
    exact absurd hready (not_mem_replies_of_reply? hreply reply)

/-- **The worker serialises its clients.** Through any actions on a worker of a new engine, the
engine is the one that the history leads to, with its feed closed after a stop, and holds the sheet
of one engine that carried out the commands of the requests served, one by one. Requests are served
in the order of arrival, each at most once and with the command that was sent; none is lost while
the worker runs, and nobody can take back one that has arrived. The requests of one client are
served in the order in which it sent them. What a client is told is what the one engine replies to
the command at its place, and whoever still waits for a request that was served is told so. A batch
whose requester is told that the worker has stopped is never applied. -/
theorem clients_serialised (hspawn : Worker.spawn d = .ok w) (actions : List Action) :
    let s := (start w).run actions
    Engine.new d = .ok w.engine ∧
    (s.worker.engine =
      if s.worker.running then w.engine.through s.history else (w.engine.through s.history).close) ∧
    s.worker.engine.SameSheet (w.engine.executeAll (s.served.map (·.2))) ∧
    s.served <+: s.arrived ∧
    (s.worker.running → s.arrived = s.served ++ s.worker.queue) ∧
    (s.arrived.map (·.1)).Nodup ∧
    (∀ ticket c, (ticket, c) ∈ s.arrived → ∃ client, s.sent[ticket]? = some (client, c)) ∧
    (∀ more, s.arrived <+: (s.run more).arrived) ∧
    s.served.Pairwise (fun a b => s.client? a.1 = s.client? b.1 → a.1 < b.1) ∧
    (∀ ticket reply, (ticket, .ok reply) ∈ s.answers →
      Replied w.engine s.served ticket reply) ∧
    (∀ ticket c, (ticket, c) ∈ s.served → ticket ∈ s.worker.awaited →
      ∃ reply, (s.worker.receive ticket).1 = some (.ok reply) ∧
        Replied w.engine s.served ticket reply) ∧
    ∀ ticket answer client batch, (ticket, answer) ∈ s.answers →
      s.sent[ticket]? = some (client, .edit batch) →
      answer.bind Reply.report = .error .engineStopped →
      ∀ more c, (ticket, c) ∉ (s.run more).served := by
  intro s
  obtain ⟨horder, hfollows, hanswered⟩ := invariants_run (invariants_start hspawn) actions
  have harrived := List.sublist_append_left s.arrived s.worker.line
  refine ⟨Worker.new_of_spawn hspawn, hfollows, hfollows.sameSheet, horder.served_prefix,
    horder.arrived_eq, (horder.tickets.sublist harrived).nodup, fun ticket c hmem =>
      horder.tickets.sent_of_mem (ticket, c) (List.mem_append_left _ hmem),
    fun more => (s.prefix_run more).2.1,
    (horder.tickets.sublist (horder.served_prefix.sublist.trans harrived)).ordered,
    hanswered.told, fun ticket c => hanswered.receive_of_mem_served, ?_⟩
  intro ticket answer client batch hmem hsent hstopped more c
  -- later on the request and the answer are still there, so it is not applied then either
  obtain ⟨horder', -, hanswered'⟩ := invariants_run ⟨horder, hfollows, hanswered⟩ more
  obtain ⟨⟨_, hmore⟩, -, hanswers⟩ := s.prefix_run more
  have hsent' : (s.run more).sent[ticket]? = some (client, .edit batch) := by
    rw [← hmore, List.getElem?_append_left (List.getElem?_eq_some_iff.1 hsent).1, hsent]
  exact hanswered'.not_served horder' (hanswers.subset hmem) hsent' hstopped c

/-- Two clients submit a batch each, the second enters the queue first and gives up, and both
batches are carried out; the first client is told the outcome of its own after that of the other.
Its next batch is dropped when the worker is stopped. -/
theorem two_clients_serialised :
    let d : Dimensions := ⟨1, 1, by decide, by decide⟩
    let first : Batch := .ofList [("A1", "1")]
    let second : Batch := .ofList [("A1", "2")]
    let third : Batch := .ofList [("A1", "3")]
    let actions : List Action :=
      [.request 0 (.edit first), .request 1 (.edit second), .enter 1, .enter 0, .giveUp 1, .serve,
        .serve, .receive 0, .request 0 (.edit third), .stop, .receive 2]
    ∃ w reply, Worker.spawn d = .ok w ∧
      let s := (start w).run actions
      s.served = [(1, .edit second), (0, .edit first)] ∧
      s.worker.engine.SameSheet (w.engine.executeAll [.edit second, .edit first]) ∧
      s.answers = [(0, .ok reply), (2, .error .engineStopped)] ∧
      Replied w.engine s.served 0 reply ∧
      ∀ more c, (2, c) ∉ (s.run more).served := by
  intro d first second third actions
  obtain ⟨fresh, hnew⟩ := Engine.exists_new (d := d) (by decide)
  have hspawn : Worker.spawn d = .ok ⟨fresh, true, [], [], 0, [], []⟩ := by
    rw [Worker.spawn, hnew]
    rfl
  let s : Session := (start ⟨fresh, true, [], [], 0, [], []⟩).run actions
  let between : Engine :=
    (fresh.execute (.edit second)).2.discard (fresh.execute (.edit second)).1
  obtain ⟨hserved, hsent, hanswers⟩ : s.served = [(1, .edit second), (0, .edit first)] ∧
      s.sent[2]? = some (0, .edit third) ∧
      s.answers =
        [(0, .ok (between.execute (.edit first)).1), (2, .error .engineStopped)] := by
    simp [s, between, actions, run, act, start, served, Turn.request?, IsNext, client?, Worker.send,
      Worker.entrant?, Worker.enter, Worker.capacity, Worker.step, Worker.receive, Worker.abandon,
      Worker.reply?, Worker.forget, Worker.stop]
  have hunanswered : (2, .error .engineStopped) ∈ s.answers := by
    rw [hanswers]
    exact List.mem_cons_of_mem _ (List.mem_singleton_self _)
  obtain ⟨-, -, hsheet, -, -, -, -, -, -, htold, -, hunavailable⟩ :=
    clients_serialised hspawn actions
  refine ⟨_, _, hspawn, hserved, ?_, hanswers, htold _ _ ?_,
    hunavailable 2 _ 0 third hunanswered hsent rfl⟩
  · rwa [hserved] at hsheet
  · rw [hanswers]
    exact List.mem_cons_self

end Session

end Spreadsheet
