import Spreadsheet.Proofs.Worker.Session

/-! # The order of requests
Throughout a session the requests that have arrived, followed by those in line, are **tickets**:
each stands there once, under its place among all requests, and those of one client stand in the
order in which it made them. While the worker runs, what has arrived is what was carried out and
then what is in the queue, so requests are carried out in the order of their arrival and none is
lost. -/

namespace Spreadsheet

namespace Session

/-! ## Tickets -/

/-- Each request of a list is the one that was sent under its ticket, none stands there twice, and
those of one client are in the order in which they were sent. -/
structure Tickets (sent requests : List (Nat × Command)) : Prop where
  /-- The ticket of a request is its place. -/
  sent_of_mem : ∀ request ∈ requests, ∃ client, sent[request.1]? = some (client, request.2)
  /-- Each ticket stands there once. -/
  nodup : (requests.map (·.1)).Nodup
  /-- The tickets of one client ascend. -/
  ordered : requests.Pairwise fun a b =>
    sent[a.1]?.map (·.1) = sent[b.1]?.map (·.1) → a.1 < b.1

namespace Tickets

variable {sent requests arrived before after : List (Nat × Command)} {request : Nat × Command}

theorem nil (sent : List (Nat × Command)) : Tickets sent [] :=
  ⟨fun _ h => absurd h List.not_mem_nil, List.nodup_nil, .nil⟩

/-- A ticket is less than the number of requests that were sent. -/
theorem lt_length (h : Tickets sent requests) (hmem : request ∈ requests) :
    request.1 < sent.length := by
  obtain ⟨client, hsent⟩ := h.sent_of_mem request hmem
  exact (List.getElem?_eq_some_iff.1 hsent).1

/-- Leaving out requests does no harm. -/
theorem sublist (h : Tickets sent requests) (hsub : arrived.Sublist requests) :
    Tickets sent arrived :=
  ⟨fun request hmem => h.sent_of_mem request (hsub.subset hmem), h.nodup.sublist (hsub.map _),
    h.ordered.sublist hsub⟩

/-- Sending another request changes no ticket. -/
theorem send (h : Tickets sent requests) (more : Nat × Command) :
    Tickets (sent ++ [more]) requests where
  sent_of_mem request hmem := by
    rw [List.getElem?_append_left (h.lt_length hmem)]
    exact h.sent_of_mem request hmem
  nodup := h.nodup
  ordered := h.ordered.imp_of_mem fun {a b} ha hb hlt => by
    rw [List.getElem?_append_left (h.lt_length ha), List.getElem?_append_left (h.lt_length hb)]
    exact hlt

/-- The request that is sent last may stand last. -/
theorem concat (h : Tickets sent requests) (client : Nat) (c : Command) :
    Tickets (sent ++ [(client, c)]) (requests ++ [(sent.length, c)]) where
  sent_of_mem request hmem := by
    rcases List.mem_append.1 hmem with hold | hnew
    · exact (h.send (client, c)).sent_of_mem request hold
    · obtain rfl := List.mem_singleton.1 hnew
      exact ⟨client, List.getElem?_concat_length⟩
  nodup := by
    rw [List.map_append, List.nodup_append]
    refine ⟨h.nodup, by simp, fun ticket hold other hnew heq => ?_⟩
    obtain ⟨request, hmem, rfl⟩ := List.mem_map.1 hold
    have hother : other = sent.length := List.mem_singleton.1 hnew
    have hlt := h.lt_length hmem
    omega
  ordered := by
    refine List.pairwise_append.2 ⟨(h.send (client, c)).ordered, List.pairwise_singleton _ _, ?_⟩
    intro a ha b hb _
    obtain rfl := List.mem_singleton.1 hb
    exact h.lt_length ha

/-- A request may move before others if none of the same client with a lesser ticket is among
them. -/
theorem move (h : Tickets sent (arrived ++ (before ++ request :: after)))
    (hnext : ∀ other ∈ before, other.1 < request.1 →
      sent[other.1]?.map (·.1) ≠ sent[request.1]?.map (·.1)) :
    Tickets sent (arrived ++ [request] ++ (before ++ after)) := by
  rw [List.append_assoc, List.singleton_append]
  have hperm : (arrived ++ request :: (before ++ after)).Perm
      (arrived ++ (before ++ request :: after)) :=
    List.Perm.append_left arrived List.perm_middle.symm
  obtain ⟨harrived, hline, hcross⟩ := List.pairwise_append.1 h.ordered
  obtain ⟨hbefore, hrest, hbetween⟩ := List.pairwise_append.1 hline
  obtain ⟨hrequest, hafter⟩ := List.pairwise_cons.1 hrest
  refine ⟨fun other hmem => h.sent_of_mem other (hperm.mem_iff.1 hmem),
    (hperm.map (·.1)).nodup_iff.2 h.nodup, List.pairwise_append.2 ⟨harrived, ?_, ?_⟩⟩
  · refine List.pairwise_cons.2 ⟨fun other hother hclient => ?_, List.pairwise_append.2
      ⟨hbefore, hafter, fun a ha b hb => hbetween a ha b (List.mem_cons_of_mem request hb)⟩⟩
    rcases List.mem_append.1 hother with hother | hother
    · -- the other stood before the request, so one of the same client has a lesser ticket
      have hlt := hbetween other hother request List.mem_cons_self hclient.symm
      exact absurd hclient.symm (hnext other hother hlt)
    · exact hrequest other hother hclient
  · exact fun a ha b hb => hcross a ha b (List.perm_middle.mem_iff.2 hb)

end Tickets

/-! ## Requests in order -/

variable {s s' : Session} {ticket : Nat} {c : Command}

/-- What holds of the requests of a session. -/
structure InOrder (s : Session) : Prop where
  /-- While the worker runs every request gets its place as its ticket. -/
  issued_eq : s.worker.running → s.worker.issued = s.sent.length
  /-- Nothing waits once the worker has stopped. -/
  emptied : s.worker.running = false → s.worker.line = [] ∧ s.worker.queue = []
  /-- The queue has no more requests than there is room. -/
  length_le : s.worker.queue.length ≤ Worker.capacity
  /-- Requests are carried out in the order of arrival. -/
  served_prefix : s.served <+: s.arrived
  /-- While the worker runs no request that has arrived is lost. -/
  arrived_eq : s.worker.running → s.arrived = s.served ++ s.worker.queue
  /-- What has arrived and what is in line is as it was sent. -/
  tickets : Tickets s.sent (s.arrived ++ s.worker.line)

theorem inOrder_start (e : Engine) : (start ⟨e, true, [], [], 0, [], []⟩).InOrder where
  issued_eq _ := rfl
  emptied _ := ⟨rfl, rfl⟩
  length_le := Nat.zero_le _
  served_prefix := List.nil_prefix
  arrived_eq _ := rfl
  tickets := .nil []

/-- Turns without a command carry out no request. -/
theorem served_append {turns : List Turn} (hturns : turns.filterMap Turn.request? = []) :
    (s.history ++ turns).filterMap Turn.request? = s.served := by
  rw [List.filterMap_append, hturns, List.append_nil, served]

/-- Carrying out a request adds it to those carried out. -/
theorem served_carriedOut (s : Session) (ticket : Nat) (c : Command) {lost : List Turn}
    (hlost : lost.filterMap Turn.request? = []) :
    (s.history ++ .carriedOut ticket c :: lost).filterMap Turn.request? =
      s.served ++ [(ticket, c)] := by
  rw [List.filterMap_append, List.filterMap_cons, hlost]
  rfl

/-- A worker with a request in line is running. -/
theorem InOrder.running_of_line {before after : List (Nat × Command)} {request : Nat × Command}
    (h : s.InOrder) (hline : s.worker.line = before ++ request :: after) :
    s.worker.running = true := by
  by_contra hstopped
  rw [(h.emptied (Bool.eq_false_of_not_eq_true hstopped)).1] at hline
  simp at hline

/-- A worker with a request in the queue is running. -/
theorem InOrder.running_of_queue {queue : List (Nat × Command)} {request : Nat × Command}
    (h : s.InOrder) (hqueue : s.worker.queue = request :: queue) : s.worker.running = true := by
  by_contra hstopped
  rw [(h.emptied (Bool.eq_false_of_not_eq_true hstopped)).2] at hqueue
  simp at hqueue

/-- Actions that at most take requests out of the line leave the order of requests alone. -/
theorem InOrder.of_sublist (h : s.InOrder) (hsent : s'.sent = s.sent)
    (harrived : s'.arrived = s.arrived) (hserved : s'.served = s.served)
    (hrunning : s'.worker.running = s.worker.running)
    (hissued : s'.worker.issued = s.worker.issued) (hqueue : s'.worker.queue = s.worker.queue)
    (hline : s'.worker.line.Sublist s.worker.line) : s'.InOrder where
  issued_eq hrun := by
    rw [hissued, hsent]
    exact h.issued_eq (hrunning ▸ hrun)
  emptied hstopped := by
    obtain ⟨hnil, hempty⟩ := h.emptied (hrunning ▸ hstopped)
    rw [hnil] at hline
    exact ⟨List.eq_nil_of_sublist_nil hline, hqueue.trans hempty⟩
  length_le := hqueue ▸ h.length_le
  served_prefix := by
    rw [hserved, harrived]
    exact h.served_prefix
  arrived_eq hrun := by
    rw [hserved, harrived, hqueue]
    exact h.arrived_eq (hrunning ▸ hrun)
  tickets := by
    rw [hsent, harrived]
    exact h.tickets.sublist (hline.append_left s.arrived)

theorem InOrder.request (h : s.InOrder) (client : Nat) (c : Command) :
    (s.act (.request client c)).InOrder := by
  cases hrunning : s.worker.running with
  | true =>
    rw [act_request_of_running hrunning, h.issued_eq hrunning]
    exact {
      issued_eq := fun _ => by simp
      emptied := fun hstopped => by simp [hrunning] at hstopped
      length_le := h.length_le
      served_prefix := h.served_prefix
      arrived_eq := fun _ => h.arrived_eq hrunning
      tickets := by
        rw [← List.append_assoc]
        exact h.tickets.concat client c }
  | false =>
    rw [act_request_of_stopped hrunning]
    exact {
      issued_eq := fun hrun => by simp [hrunning] at hrun
      emptied := h.emptied
      length_le := h.length_le
      served_prefix := h.served_prefix
      arrived_eq := h.arrived_eq
      tickets := h.tickets.send (client, c) }

theorem InOrder.enter (h : s.InOrder) (ticket : Nat) : (s.act (.enter ticket)).InOrder := by
  rcases s.act_enter ticket with heq | ⟨c, before, after, hline, hnext, hroom, heq⟩
  · rwa [heq]
  · have hrunning := h.running_of_line hline
    have htickets := h.tickets
    rw [hline] at htickets
    rw [heq]
    exact {
      issued_eq := h.issued_eq
      emptied := fun hstopped => by simp [hrunning] at hstopped
      length_le := by
        rw [List.length_append]
        exact hroom
      served_prefix := h.served_prefix.trans (List.prefix_append _ _)
      arrived_eq := fun hrun => by
        change s.arrived ++ _ = s.served ++ _
        rw [h.arrived_eq hrun, List.append_assoc]
      tickets := htickets.move fun other hother =>
        hnext other (hline ▸ List.mem_append_left _ hother) }

theorem InOrder.serve (h : s.InOrder) : (s.act .serve).InOrder := by
  rcases s.act_serve with ⟨-, heq⟩ | ⟨ticket, c, queue, replies, lost, hqueue, hlost, -, heq⟩
  · rwa [heq]
  · have hrunning := h.running_of_queue hqueue
    have harrived : s.arrived = s.served ++ (ticket, c) :: queue := hqueue ▸ h.arrived_eq hrunning
    -- the request moves from the queue to those carried out
    have hserved := served_carriedOut s ticket c hlost
    rw [heq]
    exact {
      issued_eq := h.issued_eq
      emptied := fun hstopped => by simp [hrunning] at hstopped
      length_le := by
        have hlength := h.length_le
        rw [hqueue] at hlength
        exact Nat.le_of_succ_le hlength
      served_prefix := by
        rw [served, hserved]
        exact ⟨queue, (List.append_cons ..).symm.trans harrived.symm⟩
      arrived_eq := fun _ => by
        rw [served, hserved]
        exact harrived.trans (List.append_cons ..)
      tickets := h.tickets }

theorem InOrder.stop (h : s.InOrder) : (s.act .stop).InOrder where
  issued_eq hrun := absurd hrun (by simp [act, Worker.stop])
  emptied _ := ⟨rfl, rfl⟩
  length_le := Nat.zero_le _
  served_prefix := h.served_prefix
  arrived_eq hrun := absurd hrun (by simp [act, Worker.stop])
  tickets := h.tickets.sublist (List.append_sublist_append_left .. |>.2 (List.nil_sublist _))

/-- **Every action keeps the requests in order.** -/
theorem InOrder.act (h : s.InOrder) (a : Action) : (s.act a).InOrder := by
  cases a with
  | request client c => exact h.request client c
  | enter ticket => exact h.enter ticket
  | serve => exact h.serve
  | receive ticket =>
    rcases s.act_receive ticket with heq | ⟨answer, -, -, heq⟩
    · rwa [heq]
    · rw [heq]
      exact h.of_sublist rfl rfl rfl rfl rfl rfl List.filter_sublist
  | giveUp ticket =>
    obtain ⟨turns, hturns, heq⟩ := s.act_giveUp ticket
    rw [heq]
    exact h.of_sublist rfl rfl (served_append hturns) rfl rfl rfl List.filter_sublist
  | poll number =>
    exact h.of_sublist rfl rfl (served_append rfl) rfl rfl rfl (List.Sublist.refl _)
  | leave number =>
    exact h.of_sublist rfl rfl (served_append rfl) rfl rfl rfl (List.Sublist.refl _)
  | stop => exact h.stop

end Session

end Spreadsheet
