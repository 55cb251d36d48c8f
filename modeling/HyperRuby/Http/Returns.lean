import HyperRuby.Http.Served

/-! # Every call returns

As long as a thread is left, or the channel is closed for good, some operation
of a call or on its request is possible, at once or when a time is up. So every
call under way comes to return a response.
-/
namespace HyperRuby.Http
open Library

variable {config : HandoffConfig} {s t : Exchange}

section Progress
variable {i w : ℕ} {hd : Handler} {thread : Thread} {work : RequestWithCompletion}

/-- Some operation of the process is possible in `s`, and takes something off. -/
def Exchange.Progresses (config : HandoffConfig) (s : Exchange) : Prop :=
  ∃ action t, action.own = true ∧ s.exec config action = some t ∧ t.left config < s.left config

theorem progresses_of_call (event : HandlerEvent) (hown : (Action.handler i event).own = true)
    (hget : s.handlers[i]? = some hd) (he : s.handle config i hd event = some t) :
    s.Progresses config := by
  refine ⟨.handler i event, t, hown, ?_, handle_left hget he⟩
  rw [Exchange.exec, hget]
  exact he

theorem exists_trySend (config : HandoffConfig) (s : Exchange)
    (completion : RequestWithCompletion) :
    ∃ receiver out, s.trySend config completion receiver = some out := by
  unfold Exchange.trySend
  by_cases hgone : s.disconnected = true
  · exact ⟨none, (.disconnected, s), by simp [hgone]⟩
  by_cases hzero : config.channelCapacity = 0
  · by_cases hreceiving : .receiving ∈ s.threads
    · rcases List.getElem?_of_mem hreceiving with ⟨w, hw⟩
      exact ⟨some w, _, by simp [hgone, hzero, hw]; rfl⟩
    · exact ⟨none, _, by simp [hgone, hzero, hreceiving]; rfl⟩
  · by_cases hroom : s.queue.length < config.channelCapacity
    · exact ⟨none, _, by simp [hgone, hzero, hroom]; rfl⟩
    · exact ⟨none, _, by simp [hgone, hzero, hroom]; rfl⟩

theorem progresses_of_sending {completion : RequestWithCompletion} {start : Option ℕ}
    (hget : s.handlers[i]? = some hd) (hstage : hd.stage = .sending completion start) :
    s.Progresses config := by
  rcases exists_trySend config s completion with ⟨receiver, ⟨outcome, u⟩, htry⟩
  have hproceed : ∃ t, s.handle config i hd (.proceed receiver) = some t := by
    simp only [Exchange.handle, Exchange.proceed, hstage, Exchange.offer, htry]
    cases outcome <;> exact ⟨_, rfl⟩
  rcases hproceed with ⟨t, he⟩
  exact progresses_of_call _ rfl hget he

theorem progresses_of_busy (hget : s.threads[w]? = some thread)
    (taken : thread.work = some work) : s.Progresses config := by
  have hstep : ∃ event t, (Action.thread w event).own = true ∧
      s.work w thread event = some t := by
    cases thread with
    | idle | receiving | ended => cases taken
    | holding work =>
      refine ⟨.proceed, ?_⟩
      simp only [Exchange.work, Exchange.threadProceeds]
      cases toRuby work.request <;> exact ⟨_, rfl, rfl⟩
    | calling work => exact ⟨.result .raised, _, rfl, rfl⟩
  rcases hstep with ⟨event, t, hown, he⟩
  refine ⟨.thread w event, t, hown, ?_, busy_left hget taken he⟩
  rw [Exchange.exec, hget]
  exact he

/-- A thread that is left takes from a channel that is not empty, or has a request already. -/
theorem progresses_of_queued (hqueue : work ∈ s.queue)
    (hlive : ∃ thread ∈ s.threads, thread ≠ .ended) : s.Progresses config := by
  rcases hlive with ⟨thread, hmem, hleft⟩
  rcases List.getElem?_of_mem hmem with ⟨w, hget⟩
  cases htaken : thread.work with
  | some work => exact progresses_of_busy hget htaken
  | none =>
    rcases List.exists_cons_of_ne_nil (List.ne_nil_of_mem hqueue) with ⟨first, queue, hfront⟩
    have htake : s.take w =
        some { s with queue := queue, threads := s.threads.set w (.holding first) } := by
      simp only [Exchange.take, hfront]
    have hproceeds : s.work w thread .proceed =
        some { s with queue := queue, threads := s.threads.set w (.holding first) } := by
      cases thread with
      | idle => simp only [Exchange.work, Exchange.threadProceeds, htake]
      | receiving => exact htake
      | holding | calling => cases htaken
      | ended => exact absurd rfl hleft
    refine ⟨.thread w .proceed, _, rfl, ?_, take_left hget htake⟩
    rw [Exchange.exec, hget]
    exact hproceeds

theorem progresses_of_waiting {rx : ℕ} {isGrpc : Bool} (h : Run config s) (hserved : s.Served)
    (hget : s.handlers[i]? = some hd) (hstage : hd.stage = .waiting rx isGrpc) :
    s.Progresses config := by
  rcases waiting_slot h hget hstage with ⟨o, ho, -, hkept⟩
  cases hcontent : o.content with
  | empty =>
    rcases waiting_due h hget hstage ho hcontent with ⟨work, hwork, -, -⟩
    rcases mem_held.mp hwork with hqueue | ⟨thread, hmem, htaken⟩
    · rcases hserved with hlive | hgone
      · exact progresses_of_queued hqueue hlive
      · rw [run_shut h hgone] at hqueue
        cases hqueue
    · rcases List.getElem?_of_mem hmem with ⟨w, hw⟩
      exact progresses_of_busy hw htaken
  | value response =>
    refine progresses_of_call (.proceed none) rfl hget
      (t := s.enter i hd (.returned .worker response)) ?_
    simp [Exchange.handle, Exchange.proceed, hstage, ho, hcontent]
  | senderDropped =>
    refine progresses_of_call (.proceed none) rfl hget
      (t := s.enter i hd (.returned .noAnswer (noAnswerResponse isGrpc))) ?_
    simp [Exchange.handle, Exchange.proceed, hstage, ho, hcontent]
  | receiverDropped => exact absurd hcontent hkept

/-- With a call under way, the process makes progress, at once or when some time has passed. -/
theorem exists_progress (h : Run config s) (hserved : s.Served)
    (hget : s.handlers[i]? = some hd) (hlost : hd.stage.lost = false)
    (hgoing : hd.stage.returns = false) :
    ∃ k, Exchange.Progresses config { s with now := s.now + k } := by
  cases hstage : hd.stage with
  | collecting declaredLen since =>
    refine ⟨since + config.recvTimeout - s.now, progresses_of_call .expire rfl hget
      (t := Exchange.enter { s with now := s.now + (since + config.recvTimeout - s.now) } i hd
        (.returned .bodyTimeout createTimeoutResponse)) ?_⟩
    have hlate : since + config.recvTimeout ≤ s.now + (since + config.recvTimeout - s.now) := by
      omega
    simp [Exchange.handle, hstage, hlate]
  | sending completion start => exact ⟨0, progresses_of_sending hget hstage⟩
  | polling completion start =>
    have hproceed : ∃ t, s.handle config i hd (.proceed none) = some t := by
      simp only [Exchange.handle, Exchange.proceed, hstage]
      split_ifs <;> exact ⟨_, rfl⟩
    rcases hproceed with ⟨t, he⟩
    exact ⟨0, progresses_of_call _ rfl hget he⟩
  | sleeping completion start wake =>
    refine ⟨wake - s.now, progresses_of_call (.proceed none) rfl hget
      (t := Exchange.enter { s with now := s.now + (wake - s.now) } i hd
        (.sending completion (some start))) ?_⟩
    have hawake : wake ≤ s.now + (wake - s.now) := by omega
    simp [Exchange.handle, Exchange.proceed, hstage, hawake]
  | waiting rx isGrpc => exact ⟨0, progresses_of_waiting h hserved hget hstage⟩
  | returned =>
    rw [hstage] at hgoing
    cases hgoing
  | failed | dropped =>
    rw [hstage] at hlost
    cases hlost

end Progress
theorem run_ticks (config : HandoffConfig) (s : Exchange) (k : ℕ) :
    run (Exchange.exec config) (fun _ a => a.own = true) s (List.replicate k .tick) =
      some { s with now := s.now + k } := by
  induction k generalizing s with
  | zero => rfl
  | succ k ih =>
    rw [List.replicate_succ, run, if_pos (show Action.tick.own = true from rfl)]
    refine (ih { s with now := s.now + 1 }).trans ?_
    rw [Nat.add_assoc, Nat.add_comm 1 k]

/-- What holds of the states on the way from `s` as long as the process acts by itself. -/
structure Exchange.Leads (config : HandoffConfig) (s t : Exchange) : Prop where
  run : Run config t
  served : t.Served
  keeps : s.Keeps t

theorem Exchange.Leads.step {u : Exchange} {action : Action} (h : s.Leads config t)
    (ha : action.own = true) (he : t.exec config action = some u) : s.Leads config u where
  run := h.run.step trivial he
  served := h.served.step ha he
  keeps := by
    intro i hd hget hlost
    rcases h.keeps i hd hget hlost with ⟨hd', hget', hlost'⟩
    exact own_keeps ha he i hd' hget' hlost'

/-- Every call returns. Without new calls, the calls take a bounded number of operations,
whatever the clients, the threads and the clock do; and as long as a thread is left whose block
returns, or the channel is closed for good, calls and threads can by themselves bring every call
under way to return a response. -/
theorem calls_return (config : HandoffConfig) (s : Exchange) (h : Run config s) :
    (∀ actions t,
      run (Exchange.exec config) (fun _ a => a.arrives = false) s actions = some t →
      actions.countP Action.byCall ≤ s.left config) ∧
    (s.Served → ∃ actions t,
      run (Exchange.exec config) (fun _ a => a.own = true) s actions = some t ∧
      ∀ (i : ℕ) (hd : Handler), s.handlers[i]? = some hd → hd.stage.lost = false →
        ∃ hd', t.handlers[i]? = some hd' ∧ hd'.stage.returns = true) := by
  constructor
  · intro actions t hrun
    have hbound := run_countP_le (fun _ => True) (Exchange.left config) Action.byCall
      (fun s a t _ ha he => ⟨trivial, exec_left ha he⟩) hrun trivial
    omega
  · intro hserved
    have hstart : s.Leads config s := ⟨h, hserved, fun i hd hget hlost => ⟨hd, hget, hlost⟩⟩
    have hprogress : ∀ u, s.Leads config u →
        ¬ (∀ hd ∈ u.handlers, hd.stage.lost = false → hd.stage.returns = true) →
        ∃ actions t, run (Exchange.exec config) (fun _ a => a.own = true) u actions = some t ∧
          s.Leads config t ∧ t.left config < u.left config := by
      intro u hu hgoing
      push Not at hgoing
      rcases hgoing with ⟨hd, hmem, hlost, hgoing⟩
      rcases List.getElem?_of_mem hmem with ⟨i, hget⟩
      rcases exists_progress hu.run hu.served hget hlost (by simpa using hgoing) with
        ⟨k, action, t, hown, he, hlt⟩
      have hrun : run (Exchange.exec config) (fun _ a => a.own = true) u
          (List.replicate k .tick ++ [action]) = some t := by
        rw [run_concat, run_ticks]
        exact (if_pos hown).trans he
      refine ⟨_, t, hrun, ?_, lt_of_lt_of_le hlt (later_left config u k)⟩
      exact run_history (fun _ => s.Leads config) hu
        (fun _ _ _ _ _ ha ih he => ih.step ha he) hrun
    rcases exists_goal _ _ _ hprogress hstart with ⟨actions, t, hrun, hleads, hreturned⟩
    refine ⟨actions, t, hrun, ?_⟩
    intro i hd hget hlost
    rcases hleads.keeps i hd hget hlost with ⟨hd', hget', hlost'⟩
    exact ⟨hd', hget', hreturned hd' (List.mem_of_getElem? hget') hlost'⟩

/-- The block runs for one call, a second one is queued, a third one asleep in its polling loop,
and a fourth one reads its body. -/
theorem calls_return_busy :
    ∃ s, Run ⟨30, 1, 5⟩ s ∧ (s.handlers.length = 4 ∧
        ∀ hd ∈ s.handlers, hd.stage.lost = false ∧ hd.stage.returns = false) ∧
      ∃ actions t,
        run (Exchange.exec ⟨30, 1, 5⟩) (fun _ a => a.own = true) s actions = some t ∧
        ∀ i < 4, ∃ hd, t.handlers[i]? = some hd ∧ hd.stage.returns = true := by
  have hrun : ∃ s, Run ⟨30, 1, 5⟩ s ∧ (s.handlers.length = 4 ∧
        ∀ hd ∈ s.handlers, hd.stage.lost = false ∧ hd.stage.returns = false) ∧
      ∃ thread ∈ s.threads, thread ≠ .ended :=
    exists_reached
      (List.replicate 4 (.arrive ⟨.get, ascii "/", []⟩ none) ++
        [.hire, .handler 0 (.body (some [])), .handler 0 (.proceed none), .thread 0 .proceed,
          .thread 0 .proceed, .handler 1 (.body (some [])), .handler 1 (.proceed none),
          .handler 2 (.body (some [])), .handler 2 (.proceed none), .handler 2 (.proceed none)])
      (by decide +kernel)
  rcases hrun with ⟨s, hs, ⟨hlength, hgoing⟩, hlive⟩
  rcases (calls_return _ s hs).2 (.inl hlive) with ⟨actions, t, hrun, hreturned⟩
  refine ⟨s, hs, ⟨hlength, hgoing⟩, actions, t, hrun, ?_⟩
  intro i hi
  have hget : s.handlers[i]? = some s.handlers[i] := List.getElem?_eq_getElem (by omega)
  exact hreturned i _ hget (hgoing _ (List.mem_of_getElem? hget)).1

end HyperRuby.Http
