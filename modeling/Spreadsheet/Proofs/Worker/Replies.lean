import Spreadsheet.Proofs.Worker.Order

/-! # Replies
The engine of a session **follows** its history, which is the requests carried out and, between
them, what subscribers did with their mailboxes. So a request is **replied** to by what one engine
that carries out the same commands one by one would reply at its place. Whoever waits for a request
that was carried out finds that reply, and only the owner of a request that was never carried out is
told that the worker has stopped. -/

namespace Spreadsheet

namespace Session

variable {first : Engine} {s s' : Session} {ticket : Nat} {reply : Reply}

/-! ## The engine -/

/-- The engine is the one that the history leads to; a worker that was stopped has closed it. -/
def Follows (first : Engine) (s : Session) : Prop :=
  s.worker.engine =
    if s.worker.running then first.through s.history else (first.through s.history).close

/-- Turns without a command may be taken whether or not the worker runs. -/
theorem Follows.append (h : s.Follows first) (turns : List Turn)
    (hturns : turns.filterMap Turn.request? = [])
    (hengine : s'.worker.engine = s.worker.engine.through turns)
    (hrunning : s'.worker.running = s.worker.running)
    (hhistory : s'.history = s.history ++ turns) : s'.Follows first := by
  rw [Follows] at h ⊢
  rw [hengine, h, hrunning, hhistory, Engine.through_append]
  split
  · rfl
  · exact (Engine.close_through hturns).symm

/-- **Every action keeps the engine at the end of the history.** -/
theorem Follows.act (h : s.Follows first) (horder : s.InOrder) (a : Action) :
    (s.act a).Follows first := by
  cases a with
  | request client c =>
    cases hrunning : s.worker.running with
    | true => rwa [act_request_of_running hrunning]
    | false => rwa [act_request_of_stopped hrunning]
  | enter ticket =>
    rcases s.act_enter ticket with heq | ⟨c, before, after, -, -, -, heq⟩
    · rwa [heq]
    · rwa [heq]
  | serve =>
    rcases s.act_serve with ⟨-, heq⟩ | ⟨ticket, c, queue, replies, lost, hqueue, -, -, heq⟩
    · rwa [heq]
    · have hrunning := horder.running_of_queue hqueue
      have hengine : s.worker.engine = first.through s.history := by
        rw [h, if_pos hrunning]
      -- the command is carried out, then a reply that nobody receives takes its turns
      rw [heq, Follows, if_pos hrunning, Engine.through_append, ← hengine]
      rfl
  | receive ticket =>
    rcases s.act_receive ticket with heq | ⟨answer, -, -, heq⟩
    · rwa [heq]
    · rwa [heq]
  | giveUp ticket =>
    obtain ⟨turns, hturns, heq⟩ := s.act_giveUp ticket
    rw [heq]
    exact h.append turns hturns rfl rfl rfl
  | poll number => exact h.append [.polled number] rfl rfl rfl rfl
  | leave number => exact h.append [.left number] rfl rfl rfl rfl
  | stop =>
    rw [Follows] at h ⊢
    change s.worker.engine.close = (first.through s.history).close
    rw [h]
    split <;> rfl

/-- The sheet of a session is that of an engine which carries out the same commands. -/
theorem Follows.sameSheet (h : s.Follows first) :
    s.worker.engine.SameSheet (first.executeAll (s.served.map (·.2))) := by
  have hhistory := (Engine.SameSheet.refl first).through s.history
  rw [h]
  split
  · exact hhistory
  · exact (Engine.sameSheet_close _).trans hhistory

/-! ## Replies -/

/-- A request was carried out, and this is what an engine replies to its command that has carried
out the commands of the requests before it. -/
def Replied (first : Engine) (served : List (Nat × Command)) (ticket : Nat) (reply : Reply) :
    Prop :=
  ∃ before c, before ++ [(ticket, c)] <+: served ∧
    reply = ((first.executeAll (before.map (·.2))).execute c).1

/-- Carrying out more requests changes no reply. -/
theorem Replied.mono {served more : List (Nat × Command)} (h : Replied first served ticket reply)
    (hmore : served <+: more) : Replied first more ticket reply := by
  obtain ⟨before, c, hbefore, hreply⟩ := h
  exact ⟨before, c, hbefore.trans hmore, hreply⟩

/-- What holds of the answers of a session. -/
structure Answered (first : Engine) (s : Session) : Prop where
  /-- Who stands in line waits. -/
  awaited_of_line : ∀ request ∈ s.worker.line, request.1 ∈ s.worker.awaited
  /-- While the worker runs, who waits has a request that has arrived or stands in line. -/
  waits : s.worker.running → ∀ ticket ∈ s.worker.awaited,
    ∃ c, (ticket, c) ∈ s.arrived ++ s.worker.line
  /-- The replies are right. -/
  replied : ∀ ticket reply, (ticket, reply) ∈ s.worker.replies →
    Replied first s.served ticket reply
  /-- The reply to a request that was carried out is there for whoever waits for it. -/
  ready : ∀ ticket c, (ticket, c) ∈ s.served → ticket ∈ s.worker.awaited →
    ∃ reply, (ticket, reply) ∈ s.worker.replies
  /-- Clients were told right replies. -/
  told : ∀ ticket reply, (ticket, .ok reply) ∈ s.answers → Replied first s.served ticket reply
  /-- Clients were told of a stop only if there was one and their request was not carried out. -/
  refused : ∀ ticket cause, (ticket, .error cause) ∈ s.answers →
    cause = .engineStopped ∧ s.worker.running = false ∧ ∀ c, (ticket, c) ∉ s.served

theorem answered_start (e : Engine) : (start ⟨e, true, [], [], 0, [], []⟩).Answered first where
  awaited_of_line _ hmem := absurd hmem List.not_mem_nil
  waits _ _ hmem := absurd hmem List.not_mem_nil
  replied _ _ hmem := absurd hmem List.not_mem_nil
  ready _ _ hmem := absurd hmem List.not_mem_nil
  told _ _ hmem := absurd hmem List.not_mem_nil
  refused _ _ hmem := absurd hmem List.not_mem_nil

/-- Forgetting a ticket leaves what is known of the others. -/
theorem Answered.forget (h : s.Answered first) (ticket : Nat) (hserved : s'.served = s.served)
    (harrived : s'.arrived = s.arrived) (hanswers : s'.answers = s.answers)
    (hrunning : s'.worker.running = s.worker.running)
    (hline : s'.worker.line = s.worker.line.filter (·.1 != ticket))
    (hawaited : s'.worker.awaited = s.worker.awaited.filter (· != ticket))
    (hreplies : s'.worker.replies = s.worker.replies.filter (·.1 != ticket)) :
    s'.Answered first where
  awaited_of_line request hmem := by
    rw [hline, List.mem_filter] at hmem
    rw [hawaited, List.mem_filter]
    exact ⟨h.awaited_of_line request hmem.1, hmem.2⟩
  waits hrun other hmem := by
    rw [hawaited, List.mem_filter] at hmem
    obtain ⟨c, hwaits⟩ := h.waits (hrunning ▸ hrun) other hmem.1
    refine ⟨c, ?_⟩
    rw [harrived, hline]
    rcases List.mem_append.1 hwaits with hwaits | hwaits
    · exact List.mem_append_left _ hwaits
    · exact List.mem_append_right _ (List.mem_filter.2 ⟨hwaits, hmem.2⟩)
  replied other reply hmem := by
    rw [hreplies, List.mem_filter] at hmem
    exact hserved ▸ h.replied other reply hmem.1
  ready other c hmem hother := by
    rw [hawaited, List.mem_filter] at hother
    obtain ⟨reply, hreply⟩ := h.ready other c (hserved ▸ hmem) hother.1
    exact ⟨reply, hreplies ▸ List.mem_filter.2 ⟨hreply, hother.2⟩⟩
  told other reply hmem := hserved ▸ h.told other reply (hanswers ▸ hmem)
  refused other cause hmem := by
    rw [hrunning, hserved]
    exact h.refused other cause (hanswers ▸ hmem)

/-- Another right answer may be given. -/
theorem Answered.tell (h : s.Answered first) {answer : Except SheetError Reply}
    (htold : ∀ reply, answer = .ok reply → Replied first s.served ticket reply)
    (hrefused : ∀ cause, answer = .error cause →
      cause = .engineStopped ∧ s.worker.running = false ∧ ∀ c, (ticket, c) ∉ s.served) :
    Answered first { s with answers := s.answers ++ [(ticket, answer)] } where
  awaited_of_line := h.awaited_of_line
  waits := h.waits
  replied := h.replied
  ready := h.ready
  told other reply hmem := by
    rcases List.mem_append.1 hmem with hmem | hmem
    · exact h.told other reply hmem
    · obtain ⟨rfl, hanswer⟩ := Prod.mk.inj (List.mem_singleton.1 hmem)
      exact htold reply hanswer.symm
  refused other cause hmem := by
    rcases List.mem_append.1 hmem with hmem | hmem
    · exact h.refused other cause hmem
    · obtain ⟨rfl, hanswer⟩ := Prod.mk.inj (List.mem_singleton.1 hmem)
      exact hrefused cause hanswer.symm

/-- A request that was carried out has a ticket less than the number of requests sent. -/
theorem InOrder.lt_of_mem_served (h : s.InOrder) {c : Command} (hmem : (ticket, c) ∈ s.served) :
    ticket < s.sent.length :=
  h.tickets.lt_length (List.mem_append_left _ (h.served_prefix.subset hmem))

theorem Answered.request (h : s.Answered first) (horder : s.InOrder) (client : Nat) (c : Command) :
    (s.act (.request client c)).Answered first := by
  cases hrunning : s.worker.running with
  | true =>
    have hissued := horder.issued_eq hrunning
    rw [act_request_of_running hrunning]
    refine { h with
      awaited_of_line := fun request hmem => ?_
      waits := fun _ ticket hmem => ?_
      ready := fun ticket other hmem hawaited => ?_ }
    · rcases List.mem_append.1 hmem with hmem | hmem
      · exact List.mem_append_left _ (h.awaited_of_line request hmem)
      · obtain rfl := List.mem_singleton.1 hmem
        exact List.mem_append_right _ (List.mem_singleton_self _)
    · rcases List.mem_append.1 hmem with hmem | hmem
      · obtain ⟨other, hother⟩ := h.waits hrunning ticket hmem
        refine ⟨other, ?_⟩
        rw [← List.append_assoc]
        exact List.mem_append_left _ hother
      · obtain rfl := List.mem_singleton.1 hmem
        exact ⟨c, List.mem_append_right _ (List.mem_append_right _ (List.mem_singleton_self _))⟩
    · rcases List.mem_append.1 hawaited with hawaited | hawaited
      · exact h.ready ticket other hmem hawaited
      · -- the new request was not carried out yet
        have hlt := horder.lt_of_mem_served hmem
        have heq := List.mem_singleton.1 hawaited
        omega
  | false =>
    rw [act_request_of_stopped hrunning]
    refine Answered.tell (s := { s with sent := s.sent ++ [(client, c)] }) { h with }
      (fun _ heq => nomatch heq) fun cause heq => ⟨(Except.error.inj heq).symm, hrunning, ?_⟩
    exact fun other hmem => Nat.lt_irrefl _ (horder.lt_of_mem_served hmem)

theorem Answered.enter (h : s.Answered first) (ticket : Nat) :
    (s.act (.enter ticket)).Answered first := by
  rcases s.act_enter ticket with heq | ⟨c, before, after, hline, -, -, heq⟩
  · rwa [heq]
  · rw [heq]
    refine { h with
      awaited_of_line := fun request hmem => h.awaited_of_line request ?_
      waits := fun hrunning other hmem => ?_ }
    · rw [hline]
      exact List.perm_middle.mem_iff.2 (List.mem_cons_of_mem _ hmem)
    · obtain ⟨d, hd⟩ := h.waits hrunning other hmem
      refine ⟨d, ?_⟩
      rw [hline] at hd
      rw [List.append_assoc, List.singleton_append]
      exact (List.Perm.append_left s.arrived List.perm_middle).mem_iff.1 hd

theorem Answered.serve (h : s.Answered first) (hfollows : s.Follows first) (horder : s.InOrder) :
    (s.act .serve).Answered first := by
  rcases s.act_serve with ⟨-, heq⟩ |
    ⟨ticket, c, queue, replies, lost, hqueue, hlost, hreplies, heq⟩
  · rwa [heq]
  · have hrunning := horder.running_of_queue hqueue
    have hserved := served_carriedOut s ticket c hlost
    have hprefix : s.served <+: s.served ++ [(ticket, c)] := List.prefix_append _ _
    -- the reply is that of an engine which has carried out the same commands
    have hright : Replied first (s.served ++ [(ticket, c)]) ticket (s.worker.engine.execute c).1 :=
      ⟨s.served, c, List.prefix_refl _, (hfollows.sameSheet.execute c).1⟩
    have hkept : ∀ entry ∈ s.worker.replies, entry ∈ replies := by
      intro entry hmem
      rcases hreplies with ⟨-, rfl⟩ | ⟨-, rfl⟩
      · exact List.mem_append_left _ hmem
      · exact hmem
    rw [heq]
    refine ⟨h.awaited_of_line, h.waits, fun other reply hmem => ?_, fun other d hmem hawaited => ?_,
      fun other reply hmem => ?_, fun other cause hmem => ?_⟩
    · rw [served, hserved]
      rcases hreplies with ⟨-, rfl⟩ | ⟨-, rfl⟩
      · rcases List.mem_append.1 hmem with hmem | hmem
        · exact (h.replied other reply hmem).mono hprefix
        · obtain ⟨rfl, rfl⟩ := Prod.mk.inj (List.mem_singleton.1 hmem)
          exact hright
      · exact (h.replied other reply hmem).mono hprefix
    · rw [served, hserved] at hmem
      rcases List.mem_append.1 hmem with hmem | hmem
      · obtain ⟨reply, hreply⟩ := h.ready other d hmem hawaited
        exact ⟨reply, hkept _ hreply⟩
      · obtain ⟨rfl, rfl⟩ := Prod.mk.inj (List.mem_singleton.1 hmem)
        rcases hreplies with ⟨-, rfl⟩ | ⟨hlost, -⟩
        · exact ⟨_, List.mem_append_right _ (List.mem_singleton_self _)⟩
        · exact absurd hawaited hlost
    · rw [served, hserved]
      exact (h.told other reply hmem).mono hprefix
    · -- nobody was told of a stop while the worker runs
      obtain ⟨-, hstopped, -⟩ := h.refused other cause hmem
      exact absurd (hrunning.symm.trans hstopped) (by decide)

theorem Answered.receive (h : s.Answered first) (horder : s.InOrder) (ticket : Nat) :
    (s.act (.receive ticket)).Answered first := by
  rcases s.act_receive ticket with heq | ⟨answer, hawaited, hcases, heq⟩
  · rwa [heq]
  · have hforget : Answered first { s with worker := s.worker.forget ticket } :=
      h.forget ticket rfl rfl rfl rfl rfl rfl rfl
    rw [heq]
    refine hforget.tell (fun reply hanswer => ?_) fun cause hanswer => ?_
    · rcases hcases with ⟨other, hother, hmem⟩ | ⟨hstopped, -, -⟩
      · obtain rfl := Except.ok.inj (hother.symm.trans hanswer)
        exact h.replied ticket other hmem
      · exact nomatch hstopped.symm.trans hanswer
    · rcases hcases with ⟨other, hother, -⟩ | ⟨hstopped, hnone, hdropped⟩
      · exact nomatch hother.symm.trans hanswer
      · have hunserved : ∀ c, (ticket, c) ∉ s.served := fun c hmem => by
          obtain ⟨reply, hreply⟩ := h.ready ticket c hmem hawaited
          exact hnone reply hreply
        refine ⟨(Except.error.inj (hstopped.symm.trans hanswer)).symm, ?_, hunserved⟩
        -- while the worker runs, the request of whoever waits is somewhere
        by_contra hrunning
        rw [Bool.not_eq_false] at hrunning
        obtain ⟨c, hmem⟩ := h.waits hrunning ticket hawaited
        rw [horder.arrived_eq hrunning, List.append_assoc] at hmem
        rcases List.mem_append.1 hmem with hmem | hmem
        · exact hunserved c hmem
        · exact hdropped c (List.mem_append.2 (List.mem_append.1 hmem).symm)

/-- Turns without a command, and whatever engine they lead to, leave the answers right. -/
theorem Answered.of_turns (h : s.Answered first) (engine : Engine) (turns : List Turn)
    (hturns : turns.filterMap Turn.request? = []) :
    Answered first { s with
      worker := { s.worker with engine }
      history := s.history ++ turns } := by
  have hserved := served_append (s := s) hturns
  refine ⟨h.awaited_of_line, h.waits, ?_, ?_, ?_, ?_⟩
  all_goals
    rw [served, hserved]
  · exact h.replied
  · exact h.ready
  · exact h.told
  · exact h.refused

theorem Answered.stop (h : s.Answered first) : (s.act .stop).Answered first where
  awaited_of_line := fun _ hmem => absurd hmem List.not_mem_nil
  waits hrunning := absurd hrunning (by simp [Session.act, Worker.stop])
  replied := h.replied
  ready := h.ready
  told := h.told
  refused ticket cause hmem := by
    obtain ⟨hcause, -, hunserved⟩ := h.refused ticket cause hmem
    exact ⟨hcause, rfl, hunserved⟩

/-- **Every action keeps the answers right.** -/
theorem Answered.act (h : s.Answered first) (hfollows : s.Follows first) (horder : s.InOrder)
    (a : Action) : (s.act a).Answered first := by
  cases a with
  | request client c => exact h.request horder client c
  | enter ticket => exact h.enter ticket
  | serve => exact h.serve hfollows horder
  | receive ticket => exact h.receive horder ticket
  | giveUp ticket =>
    obtain ⟨turns, hturns, heq⟩ := s.act_giveUp ticket
    rw [heq]
    exact h.forget ticket (served_append hturns) rfl rfl rfl rfl rfl rfl
  | poll number => exact h.of_turns _ [.polled number] rfl
  | leave number => exact h.of_turns _ [.left number] rfl
  | stop => exact h.stop

end Session

end Spreadsheet
