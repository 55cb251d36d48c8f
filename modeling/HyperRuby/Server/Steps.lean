import HyperRuby.Server.Machine

/-! # What one step of the server can do

The threads take messages and requests, go on looking, pass a request to the block, answer, or
end. What the two sides do by themselves leaves the threads alone and appends to the channels.
-/
namespace HyperRuby.Server
open Library

variable {settings : Settings} {s t : State} {w : ℕ} {th : Thread}

inductive Looked (s : State) : Worker.Stage → Worker.Stage → Prop where
  | noDelivery (empty : s.shared.queue = []) : Looked s .syslogFirst (.http true)
  | noRequest (first : Bool) (empty : s.work = []) :
      Looked s (.http first) (if first then .selecting else .syslogLast)
  | nothing (empty : s.shared.queue = []) : Looked s .syslogLast .selecting
  | closed (stage : Worker.Stage) (going : stage ≠ .ended) : Looked s stage .ended

theorem Looked.going {stage stage' : Worker.Stage} (h : Looked s stage stage') :
    stage ≠ .ended := by
  cases h with
  | closed _ going => exact going
  | noDelivery | noRequest | nothing => simp

/-- What one step of a thread can do. -/
inductive Worked (settings : Settings) (s : State) (w : ℕ) (th : Thread) : State → Prop where
  | looks (stage stage' : Worker.Stage) (place : th.place = .choosing stage)
      (looked : Looked s stage stage') :
      Worked settings s w th (s.setThread w { th with place := .choosing stage' })
  | takesMessage (stage : Worker.Stage) (d : Dispatch.SyslogDelivery)
      (queue : List Dispatch.SyslogDelivery) (place : th.place = .choosing stage)
      (front : s.shared.queue = d :: queue)
      (pc : stage = .syslogFirst ∨ stage = .syslogLast ∨ stage = .selecting) :
      Worked settings s w th
        (State.setThread { s with shared := { s.shared with queue := queue } } w
          ⟨th.streak + 1, .delivering d, th.taken ++ [.syslog d]⟩)
  | takesRequest (stage : Worker.Stage) (work : Http.RequestWithCompletion)
      (queue : List Http.RequestWithCompletion) (streak : UInt32)
      (place : th.place = .choosing stage) (going : stage ≠ .ended)
      (front : s.work = work :: queue)
      (pc : settings.enabled = true →
        ((∃ first, stage = .http first) ∨ stage = .selecting) ∧ streak = 0) :
      Worked settings s w th
        (State.setThread { s with work := queue } w
          ⟨streak, .holding work, th.taken ++ [.http work]⟩)
  | calls (work : Http.RequestWithCompletion) (ruby : Http.RubyRequest)
      (place : th.place = .holding work) (converted : Http.toRuby work.request = some ruby) :
      Worked settings s w th
        (State.setThread { s with calls := s.calls ++ [work.id] } w
          { th with place := .calling work })
  | refuses (work : Http.RequestWithCompletion) (place : th.place = .holding work)
      (failed : Http.toRuby work.request = none) :
      Worked settings s w th
        (s.respond settings w th work (Http.grpcResponseError 3 "Invalid gRPC request path"))
  | responds (work : Http.RequestWithCompletion) (result : Http.BlockResult)
      (place : th.place = .calling work) :
      Worked settings s w th (s.respond settings w th work result.toResponse)
  | decides (d : Dispatch.SyslogDelivery) (result : Dispatch.HandlerResult)
      (place : th.place = .delivering d) :
      Worked settings s w th
        (State.setThread { s with shared := s.shared.answer d (.send result) } w
          (th.next settings))
  | stops (stage : Worker.Stage) (place : th.place = .choosing stage) (going : stage ≠ .ended) :
      Worked settings s w th (s.setThread w th.stop)
  | dropsRequest (work : Http.RequestWithCompletion)
      (place : th.place = .holding work ∨ th.place = .calling work) :
      Worked settings s w th
        ((s.withHttp (s.http.put work.responseTx .senderDropped)).setThread w th.stop)
  | dropsMessage (d : Dispatch.SyslogDelivery) (place : th.place = .delivering d) :
      Worked settings s w th
        (State.setThread { s with shared := s.shared.answer d .dropSender } w th.stop)

theorem looked_worked {stage stage' : Worker.Stage} (place : th.place = .choosing stage)
    (looked : Looked s stage stage') :
    Worked settings s w th (s.chosen w th { s.seen th stage with stage := stage' }) := by
  have hchosen : s.chosen w th { s.seen th stage with stage := stage' } =
      s.setThread w { th with place := .choosing stage' } := by
    simp [State.chosen, State.seen, State.setThread]
  rw [hchosen]
  exact .looks stage stage' place looked

theorem operated_worked {stage : Worker.Stage} {seen : Seen} (place : th.place = .choosing stage)
    (h : Worker.Operated settings.workRatio (s.seen th stage) seen) :
    Worked settings s w th (s.chosen w th seen) := by
  cases h with
  | delivery d queue front pc => exact .takesMessage stage d queue place front pc
  | request work queue front pc =>
    refine .takesRequest stage work queue 0 place ?_ front fun _ => ⟨pc, rfl⟩
    rintro rfl
    simp [State.seen] at pc
  | noDelivery empty pc =>
    obtain rfl : stage = .syslogFirst := pc
    exact looked_worked place (.noDelivery empty)
  | noRequest first empty pc =>
    obtain rfl : stage = .http first := pc
    exact looked_worked place (.noRequest first empty)
  | nothing empty pc =>
    obtain rfl : stage = .syslogLast := pc
    exact looked_worked place (.nothing empty)
  | syslogClosed empty pc =>
    refine looked_worked place (.closed stage ?_)
    rintro rfl
    simp [State.seen] at pc
  | workClosed empty pc =>
    refine looked_worked place (.closed stage ?_)
    rintro rfl
    simp [State.seen] at pc

theorem chooseHttp_worked {stage : Worker.Stage} {seen : Seen} (place : th.place = .choosing stage)
    (hdisabled : settings.enabled = false) (h : chooseHttp (s.seen th stage) = some seen) :
    Worked settings s w th (s.chosen w th seen) := by
  unfold chooseHttp at h
  split_ifs at h with hended
  rw [Worker.nextHttpWorkItem, Worker.tryHttpWorkItem] at h
  rcases Worker.tryRecv_cases .http (s.seen th stage).work
    with ⟨work, queue, front, hrecv⟩ | ⟨-, hrecv | hrecv⟩
  · rw [hrecv] at h
    cases h
    refine .takesRequest stage work queue th.streak place hended front fun henabled => ?_
    rw [hdisabled] at henabled
    cases henabled
  · rw [hrecv] at h
    cases h
  · rw [hrecv] at h
    cases h
    exact looked_worked place (.closed stage hended)

theorem choose_worked {stage : Worker.Stage} {select : Worker.Kind}
    (place : th.place = .choosing stage) (he : s.choose settings w th stage select = some t) :
    Worked settings s w th t := by
  rcases Option.map_eq_some_iff.mp he with ⟨seen, hseen, rfl⟩
  split_ifs at hseen with henabled
  · exact operated_worked place (Worker.operate_operated hseen)
  · exact chooseHttp_worked place (by simpa using henabled) hseen

theorem runWorker_worked {event : ThreadEvent} (he : s.runWorker settings w th event = some t) :
    Worked settings s w th t := by
  cases event with
  | choose select =>
    simp only [State.runWorker] at he
    split at he
    · exact choose_worked ‹_› he
    · cases he
  | convert =>
    simp only [State.runWorker] at he
    split at he
    · split at he
      · cases he
        exact .calls _ _ ‹_› ‹_›
      · cases he
        exact .refuses _ ‹_› ‹_›
    · cases he
  | returns result truthy =>
    simp only [State.runWorker] at he
    split at he
    · cases he
      exact .responds _ result ‹_›
    · cases he
      exact .decides _ _ ‹_›
    · cases he
  | quit =>
    simp only [State.runWorker] at he
    split at he
    · cases he
    · rename_i stage hgoing hplace
      cases he
      exact .stops stage hplace hgoing
    · cases he
      exact .dropsRequest _ (.inl ‹_›)
    · cases he
      exact .dropsRequest _ (.inr ‹_›)
    · cases he
      exact .dropsMessage _ ‹_›

section Sides

/-- From one state to the next, the threads are left alone and the channel is only sent to. -/
structure HttpSent (e e' : Http.Exchange) : Prop where
  threads : e'.threads = e.threads
  receivers : e'.disconnected = e.disconnected
  queue : ∃ sent, e'.queue = e.queue ++ sent

theorem HttpSent.none {e e' : Http.Exchange} (threads : e'.threads = e.threads)
    (receivers : e'.disconnected = e.disconnected) (queue : e'.queue = e.queue) :
    HttpSent e e' :=
  ⟨threads, receivers, [], queue.trans (List.append_nil _).symm⟩

structure SyslogSent (u u' : Dispatch.System) : Prop where
  workers : u'.workers = u.workers
  receivers : u'.shared.receiversGone = u.shared.receiversGone
  queue : ∃ sent, u'.shared.queue = u.shared.queue ++ sent

/-- A call that waits on the oneshot has neither an answer nor the loss of its sender to see. -/
def Unanswered (oneshots : List Http.Oneshot) (rx : ℕ) : Prop :=
  ∀ o, oneshots[rx]? = some o → o.content = .empty ∨ o.content = .receiverDropped

/-- A step of a call that has not ended: it enters another stage, and may send. It answers no
call. -/
structure Handled (e : Http.Exchange) (i : ℕ) (h : Http.Handler) (e' : Http.Exchange) : Prop where
  going : finished h = false
  stage : ∃ stage, e'.handlers = e.handlers.set i { h with stage := stage }
  sent : HttpSent e e'
  unanswered : ∀ rx, Unanswered e.oneshots rx → Unanswered e'.oneshots rx
  now : e'.now = e.now

variable {config : Http.HandoffConfig} {e e' : Http.Exchange} {i : ℕ} {h : Http.Handler}

theorem Handled.enter {u : Http.Exchange} {stage : Http.Stage} (going : finished h = false)
    (handlers : u.handlers = e.handlers) (now : u.now = e.now) (sent : HttpSent e u)
    (unanswered : ∀ rx, Unanswered e.oneshots rx → Unanswered u.oneshots rx) :
    Handled e i h (u.enter i h stage) where
  going := going
  stage := ⟨stage, by rw [Http.Exchange.enter, handlers]⟩
  sent := ⟨sent.threads, sent.receivers, sent.queue⟩
  unanswered := unanswered
  now := now

theorem Handled.turn {stage : Http.Stage} (going : finished h = false) :
    Handled e i h (e.enter i h stage) :=
  .enter going rfl rfl (.none rfl rfl rfl) fun _ hrx => hrx

theorem Unanswered.opens {oneshots : List Http.Oneshot} {rx owner : ℕ}
    (h : Unanswered oneshots rx) : Unanswered (oneshots ++ [⟨owner, .empty⟩]) rx := by
  intro o ho
  rw [List.getElem?_append] at ho
  split_ifs at ho
  · exact h o ho
  · left
    rw [List.mem_singleton.mp (List.mem_of_getElem? ho)]

theorem Unanswered.leaves {oneshots : List Http.Oneshot} {rx other : ℕ}
    (h : Unanswered oneshots rx) :
    Unanswered (oneshots.modify other Http.Oneshot.dropReceiver) rx := by
  intro o ho
  rw [List.getElem?_modify] at ho
  rcases Option.map_eq_some_iff.mp ho with ⟨o', ho', rfl⟩
  split_ifs
  · exact .inr rfl
  · exact h o' ho'

/-- A channel that can hold a request never takes one past it to a thread. -/
theorem offer_handled {completion : Http.RequestWithCompletion} {start receiver : Option ℕ}
    (hcapacity : 1 ≤ config.channelCapacity) (going : finished h = false)
    (he : e.offer config i h completion start receiver = some e') : Handled e i h e' := by
  have hzero : config.channelCapacity ≠ 0 := by omega
  simp only [Http.Exchange.offer, Http.Exchange.trySend, if_neg hzero] at he
  split_ifs at he
  · cases he
    exact .turn going
  · cases he
    exact .enter going rfl rfl ⟨rfl, rfl, [completion], rfl⟩ fun _ hrx => hrx
  · cases he
    exact .turn going

theorem proceed_handled {receiver : Option ℕ} (hcapacity : 1 ≤ config.channelCapacity)
    (he : e.proceed config i h receiver = some e') : Handled e i h e' := by
  unfold Http.Exchange.proceed at he
  split at he
  case h_1 hstage => exact offer_handled hcapacity (by simp [finished, hstage]) he
  case h_2 hstage =>
    split_ifs at he <;>
    · cases he
      exact .turn (by simp [finished, hstage])
  case h_3 hstage =>
    split_ifs at he
    cases he
    exact .turn (by simp [finished, hstage])
  case h_4 hstage =>
    split at he
    · cases he
      exact .turn (by simp [finished, hstage])
    · cases he
      exact .turn (by simp [finished, hstage])
    · cases he
  case h_5 => cases he

theorem handle_handled {event : Http.HandlerEvent} (hcapacity : 1 ≤ config.channelCapacity)
    (he : e.handle config i h event = some e') : Handled e i h e' := by
  cases event with
  | body collected =>
    simp only [Http.Exchange.handle] at he
    split at he
    · rename_i hstage
      have hgoing : finished h = false := by simp [finished, hstage]
      unfold Http.Exchange.collected at he
      split_ifs at he
      · cases he
        exact .turn hgoing
      · cases he
        exact .enter hgoing rfl rfl (.none rfl rfl rfl) fun _ hrx => hrx.opens
    · rename_i hstage
      cases he
      exact .turn (by simp [finished, hstage])
    · cases he
  | expire =>
    simp only [Http.Exchange.handle] at he
    split at he
    · rename_i hstage
      split_ifs at he
      cases he
      exact .turn (by simp [finished, hstage])
    · cases he
  | proceed receiver => exact proceed_handled hcapacity he
  | drop =>
    simp only [Http.Exchange.handle, Http.Exchange.drop] at he
    split at he
    case h_4 hstage =>
      cases he
      exact .enter (by simp [finished, hstage]) rfl rfl (.none rfl rfl rfl) fun _ hrx => hrx.leaves
    case h_5 hreturned hfailed hdropped _ =>
      cases he
      refine .turn ?_
      unfold finished
      split <;> simp_all
    all_goals cases he

theorem http_sent {action : Http.Action} (hcapacity : 1 ≤ config.channelCapacity)
    (hadmits : s.admitsHttp action = true) (he : e.exec config action = some e') :
    HttpSent e e' := by
  cases action with
  | arrive | tick =>
    cases he
    exact .none rfl rfl rfl
  | handler i event =>
    rcases Option.bind_eq_some_iff.mp he with ⟨h, -, hrest⟩
    exact (handle_handled hcapacity hrest).sent
  | hire | thread | disconnect => cases hadmits

theorem deliver_sent {config : Dispatch.Config} {sh sh' : Dispatch.Shared}
    {p : Dispatch.PendingMessage} {attempt : ℕ} {stage : Dispatch.Deliver}
    {progress : Dispatch.Progress}
    (h : Dispatch.DeliverStep config sh p attempt stage sh' progress) :
    sh'.receiversGone = sh.receiversGone ∧ ∃ sent, sh'.queue = sh.queue ++ sent := by
  cases h with
  | pushed => exact ⟨rfl, [_], rfl⟩
  | counted result => cases result <;> exact ⟨rfl, [], (List.append_nil _).symm⟩
  | gone | full | answered | unanswered => exact ⟨rfl, [], (List.append_nil _).symm⟩

theorem syslog_sent {config : Dispatch.Config} {u u' : Dispatch.System}
    {action : Dispatch.Action} (hadmits : s.admitsSyslog action = true)
    (he : u.exec config action = some u') : SyslogSent u u' := by
  have hsame : ∃ sent, u.shared.queue = u.shared.queue ++ sent := ⟨[], (List.append_nil _).symm⟩
  cases Dispatch.exec_step he with
  | listener _ _ _ _ _ _ _ step => cases step <;> exact ⟨rfl, rfl, hsame⟩
  | reader _ _ _ _ _ _ step => cases step <;> exact ⟨rfl, rfl, hsame⟩
  | delivery _ _ _ _ _ step =>
    cases step with
    | delivered _ _ _ _ _ _ step => exact ⟨rfl, (deliver_sent step).1, (deliver_sent step).2⟩
    | _ => exact ⟨rfl, rfl, hsame⟩
  | receiver _ _ _ _ step =>
    generalize u.receiver = r at step
    cases step <;> exact ⟨rfl, rfl, hsame⟩
  | task _ _ _ _ _ step =>
    cases step with
    | delivered _ _ _ _ step => exact ⟨rfl, (deliver_sent step).1, (deliver_sent step).2⟩
    | _ => exact ⟨rfl, rfl, hsame⟩
  | worker => cases hadmits
  | stopAccepting | wait | complete | timeout | swap | abandon | elsewhere =>
    exact ⟨rfl, rfl, hsame⟩

end Sides

/-- What one action can do. -/
inductive Step (settings : Settings) (s : State) : Action → State → Prop where
  | http (action : Http.Action) (e : Http.Exchange) (admits : s.admitsHttp action = true)
      (step : s.http.exec settings.http action = some e) (sent : HttpSent s.http e) :
      Step settings s (.http action) (s.withHttp e)
  | syslog (action : Dispatch.Action) (u : Dispatch.System)
      (admits : s.admitsSyslog action = true)
      (step : s.syslog.exec settings.syslog action = some u) (sent : SyslogSent s.syslog u) :
      Step settings s (.syslog action) (s.withSyslog u)
  | hires (receivers : s.workGone = false ∧ s.shared.receiversGone = false) :
      Step settings s .hire { s with threads := s.threads ++ [.start settings] }
  | works (w : ℕ) (event : ThreadEvent) (th : Thread) (t : State) (hget : s.threads[w]? = some th)
      (worked : Worked settings s w th t) : Step settings s (.thread w event) t
  | closesWork : Step settings s .closeWork { s with workClosed := true }
  | closesSyslog : Step settings s .closeSyslog { s with syslogClosed := true }
  | dropsWork (oneshots : List Http.Oneshot) (ended : ∀ th ∈ s.threads, th.http = .ended)
      (step : s.http.disconnect =
        some { s.http with queue := [], disconnected := true, oneshots := oneshots }) :
      Step settings s .dropWork { s with work := [], workGone := true, oneshots := oneshots }
  | dropsSyslog (sh : Dispatch.Shared) (ended : ∀ th ∈ s.threads, th.syslog = none)
      (step : s.syslog.workerStep .dropReceivers = some { s.syslog with shared := sh })
      (receivers : sh.receiversGone = true) (queue : sh.queue = []) :
      Step settings s .dropSyslog { s with shared := sh }

theorem exec_step {action : Action} (he : s.exec settings action = some t) :
    Step settings s action t := by
  cases action with
  | http action =>
    simp only [State.exec] at he
    split_ifs at he with hadmits
    rcases Option.map_eq_some_iff.mp he with ⟨e, hstep, rfl⟩
    exact .http action e hadmits hstep (http_sent settings.capacityPos hadmits hstep)
  | syslog action =>
    simp only [State.exec] at he
    split_ifs at he with hadmits
    rcases Option.map_eq_some_iff.mp he with ⟨u, hstep, rfl⟩
    exact .syslog action u hadmits hstep (syslog_sent hadmits hstep)
  | hire =>
    simp only [State.exec] at he
    split_ifs at he with hgone
    cases he
    exact .hires (by simp_all)
  | thread w event =>
    rcases Option.bind_eq_some_iff.mp he with ⟨th, hget, hrest⟩
    exact .works w event th t hget (runWorker_worked hrest)
  | closeWork =>
    simp only [State.exec] at he
    split_ifs at he
    cases he
    exact .closesWork
  | closeSyslog =>
    cases he
    exact .closesSyslog
  | dropWork =>
    rcases Option.map_eq_some_iff.mp he with ⟨e, hstep, rfl⟩
    have hdisconnect := hstep
    unfold Http.Exchange.disconnect at hstep
    split_ifs at hstep with hended
    rcases Http.drop_senders_frame s.http.queue { s.http with queue := [], disconnected := true }
      with ⟨oneshots, hframe⟩
    rw [hframe] at hstep
    cases hstep
    exact .dropsWork oneshots (by simpa [State.http] using hended) hdisconnect
  | dropSyslog =>
    rcases Option.map_eq_some_iff.mp he with ⟨u, hstep, rfl⟩
    have hdrop := hstep
    simp only [Dispatch.System.workerStep] at hstep
    split_ifs at hstep with hended
    cases hstep
    exact .dropsSyslog _ (by simpa [State.syslog] using hended) hdrop rfl rfl

end HyperRuby.Server
