import HyperRuby.Http.Handoff

/-! # What one action of the hand-off can do

The actions are sorted by what they move: a handler's stage, a completion into the channel, out
of it or out of a thread, and the content of a oneshot.
-/
namespace HyperRuby.Http

def Thread.work : Thread → Option RequestWithCompletion
  | .holding work | .calling work => some work
  | .idle | .receiving | .ended => none

/-- The turns of a handler that change nothing but its stage. -/
inductive Turn (oneshots : List Oneshot) : Stage → Stage → Prop where
  | failed (declaredLen : Option ℕ) (since : ℕ) :
      Turn oneshots (.collecting declaredLen since) .failed
  | expired (declaredLen : Option ℕ) (since : ℕ) :
      Turn oneshots (.collecting declaredLen since) (.returned .bodyTimeout createTimeoutResponse)
  | mismatched (declaredLen : Option ℕ) (since : ℕ) (response : HyperResponse) :
      Turn oneshots (.collecting declaredLen since) (.returned .badLength response)
  | full (completion : RequestWithCompletion) (start : Option ℕ) (now : ℕ) :
      Turn oneshots (.sending completion start) (.polling completion now)
  | disconnected (completion : RequestWithCompletion) (start : Option ℕ) (isGrpc : Bool) :
      Turn oneshots (.sending completion start)
        (.returned .shuttingDown (shuttingDownResponse isGrpc))
  | timedOut (completion : RequestWithCompletion) (start : ℕ) (isGrpc : Bool) :
      Turn oneshots (.polling completion start) (.returned .tooBusy (tooBusyResponse isGrpc))
  | sleeps (completion : RequestWithCompletion) (start wake : ℕ) :
      Turn oneshots (.polling completion start) (.sleeping completion start wake)
  | wakes (completion : RequestWithCompletion) (start wake : ℕ) :
      Turn oneshots (.sleeping completion start wake) (.sending completion (some start))
  | answered (rx : ℕ) (isGrpc : Bool) (o : Oneshot) (response : HyperResponse)
      (hget : oneshots[rx]? = some o) (value : o.content = .value response) :
      Turn oneshots (.waiting rx isGrpc) (.returned .worker response)
  | unanswered (rx : ℕ) (isGrpc : Bool) :
      Turn oneshots (.waiting rx isGrpc) (.returned .noAnswer (noAnswerResponse isGrpc))
  | dropped (stage : Stage) (going : ∀ origin response, stage ≠ .returned origin response) :
      Turn oneshots stage .dropped

inductive Step (config : HandoffConfig) (s : Exchange) : Exchange → Prop where
  | arrives (parts : Parts) (declaredLen : Option ℕ) :
      Step config s { s with handlers := s.handlers ++ [⟨parts, .collecting declaredLen s.now⟩] }
  | turns (i : ℕ) (h : Handler) (stage : Stage) (hget : s.handlers[i]? = some h)
      (turn : Turn s.oneshots h.stage stage) : Step config s (s.enter i h stage)
  | offers (i : ℕ) (h : Handler) (declaredLen : Option ℕ) (since : ℕ) (request : HyperRequest)
      (hget : s.handlers[i]? = some h) (hstage : h.stage = .collecting declaredLen since) :
      Step config s (Exchange.enter { s with oneshots := s.oneshots ++ [⟨i, .empty⟩] } i h
        (.sending ⟨i, request, s.oneshots.length⟩ none))
  | queues (i : ℕ) (h : Handler) (completion : RequestWithCompletion) (start : Option ℕ)
      (isGrpc : Bool) (hget : s.handlers[i]? = some h)
      (hstage : h.stage = .sending completion start)
      (room : s.queue.length < config.channelCapacity) :
      Step config s (Exchange.enter { s with queue := s.queue ++ [completion] } i h
        (.waiting completion.responseTx isGrpc))
  | hands (i : ℕ) (h : Handler) (completion : RequestWithCompletion) (start : Option ℕ)
      (isGrpc : Bool) (w : ℕ) (hget : s.handlers[i]? = some h)
      (hstage : h.stage = .sending completion start) (receiving : s.threads[w]? = some .receiving) :
      Step config s (Exchange.enter { s with threads := s.threads.set w (.holding completion) } i h
        (.waiting completion.responseTx isGrpc))
  | leaves (i : ℕ) (h : Handler) (rx : ℕ) (isGrpc : Bool) (hget : s.handlers[i]? = some h)
      (hstage : h.stage = .waiting rx isGrpc) :
      Step config s (Exchange.enter
        { s with oneshots := s.oneshots.modify rx Oneshot.dropReceiver } i h .dropped)
  | hires : Step config s { s with threads := s.threads ++ [.idle] }
  | takes (w : ℕ) (t : Thread) (work : RequestWithCompletion) (queue : List RequestWithCompletion)
      (hget : s.threads[w]? = some t) (free : t.work = none) (hqueue : s.queue = work :: queue) :
      Step config s { s with queue := queue, threads := s.threads.set w (.holding work) }
  | moves (w : ℕ) (t t' : Thread) (hget : s.threads[w]? = some t) (free : t.work = none)
      (free' : t'.work = none) : Step config s { s with threads := s.threads.set w t' }
  | calls (w : ℕ) (work : RequestWithCompletion) (hget : s.threads[w]? = some (.holding work)) :
      Step config s
        { s with threads := s.threads.set w (.calling work), calls := s.calls ++ [work.id] }
  | responds (w : ℕ) (t : Thread) (work : RequestWithCompletion) (response : HyperResponse)
      (hget : s.threads[w]? = some t) (taken : t.work = some work) :
      Step config s (s.respond w work response)
  | abandons (w : ℕ) (t : Thread) (work : RequestWithCompletion) (hget : s.threads[w]? = some t)
      (taken : t.work = some work) :
      Step config s (Exchange.put { s with threads := s.threads.set w .ended } work.responseTx
        .senderDropped)
  | disconnects :
      Step config s (s.queue.foldl (fun s work => s.put work.responseTx .senderDropped)
        { s with queue := [], disconnected := true })
  | ticks : Step config s { s with now := s.now + 1 }

variable {config : HandoffConfig} {s t : Exchange}

inductive Tried (config : HandoffConfig) (s : Exchange) (completion : RequestWithCompletion) :
    TrySend → Exchange → Prop where
  | queued (room : s.queue.length < config.channelCapacity) :
      Tried config s completion .ok { s with queue := s.queue ++ [completion] }
  | handed (w : ℕ) (receiving : s.threads[w]? = some .receiving) :
      Tried config s completion .ok { s with threads := s.threads.set w (.holding completion) }
  | full : Tried config s completion .full s
  | disconnected : Tried config s completion .disconnected s

theorem tried_of_trySend {completion : RequestWithCompletion} {receiver : Option ℕ}
    {outcome : TrySend} (he : s.trySend config completion receiver = some (outcome, t)) :
    Tried config s completion outcome t := by
  unfold Exchange.trySend at he
  split at he
  · cases he
    exact .disconnected
  · split at he
    · split at he
      · split at he
        · cases he
          exact .handed _ ‹_›
        · cases he
      · split at he
        · cases he
        · cases he
          exact .full
    · split at he
      · cases he
        exact .queued ‹_›
      · cases he
        exact .full

theorem offer_step {i : ℕ} {h : Handler} {completion : RequestWithCompletion} {start : Option ℕ}
    {receiver : Option ℕ} (hget : s.handlers[i]? = some h)
    (hstage : h.stage = .sending completion start)
    (he : s.offer config i h completion start receiver = some t) : Step config s t := by
  unfold Exchange.offer at he
  dsimp only at he
  split at he
  · cases he
  all_goals
    have htried := tried_of_trySend ‹_›
    cases he
    cases htried
  · exact .queues i h completion start _ hget hstage ‹_›
  · exact .hands i h completion start _ _ hget hstage ‹_›
  · exact .turns i h _ hget (hstage ▸ .full completion start _)
  · exact .turns i h _ hget (hstage ▸ .disconnected completion start _)

theorem proceed_step {i : ℕ} {h : Handler} {receiver : Option ℕ} (hget : s.handlers[i]? = some h)
    (he : s.proceed config i h receiver = some t) : Step config s t := by
  unfold Exchange.proceed at he
  split at he
  case h_1 completion start hstage => exact offer_step hget hstage he
  case h_2 completion start hstage =>
    split at he
    · cases he
      exact .turns i h _ hget (hstage ▸ .timedOut completion start _)
    · cases he
      exact .turns i h _ hget (hstage ▸ .sleeps completion start _)
  case h_3 completion start wake hstage =>
    split at he
    · cases he
      exact .turns i h _ hget (hstage ▸ .wakes completion start wake)
    · cases he
  case h_4 rx isGrpc hstage =>
    split at he
    · rename_i response hcontent
      rcases Option.map_eq_some_iff.mp hcontent with ⟨o, ho, hvalue⟩
      cases he
      exact .turns i h _ hget (hstage ▸ .answered rx isGrpc o response ho hvalue)
    · cases he
      exact .turns i h _ hget (hstage ▸ .unanswered rx isGrpc)
    · cases he
  case h_5 => cases he

theorem handle_step {i : ℕ} {h : Handler} {event : HandlerEvent} (hget : s.handlers[i]? = some h)
    (he : s.handle config i h event = some t) : Step config s t := by
  cases event with
  | body collected =>
    simp only [Exchange.handle] at he
    split at he
    · rename_i declaredLen since body hstage
      unfold Exchange.collected at he
      split at he
      · cases he
        exact .turns i h _ hget (hstage ▸ .mismatched declaredLen since _)
      · cases he
        exact .offers i h declaredLen since _ hget hstage
    · rename_i declaredLen since hstage
      cases he
      exact .turns i h _ hget (hstage ▸ .failed declaredLen since)
    · cases he
  | expire =>
    simp only [Exchange.handle] at he
    split at he
    · rename_i declaredLen since hstage
      split at he
      · cases he
        exact .turns i h _ hget (hstage ▸ .expired declaredLen since)
      · cases he
    · cases he
  | proceed receiver => exact proceed_step hget he
  | drop =>
    simp only [Exchange.handle, Exchange.drop] at he
    split at he
    case h_4 rx isGrpc hstage =>
      cases he
      exact .leaves i h rx isGrpc hget hstage
    case h_5 hreturned _ _ _ =>
      cases he
      exact .turns i h _ hget (.dropped _ hreturned)
    all_goals cases he

theorem take_step {w : ℕ} {thread : Thread} (hget : s.threads[w]? = some thread)
    (free : thread.work = none) (he : s.take w = some t) : Step config s t := by
  unfold Exchange.take at he
  split at he
  · rename_i work queue hqueue
    cases he
    exact .takes w thread work queue hget free hqueue
  · cases he

theorem work_step {w : ℕ} {thread : Thread} {event : ThreadEvent}
    (hget : s.threads[w]? = some thread) (he : s.work w thread event = some t) :
    Step config s t := by
  cases event with
  | proceed =>
    cases thread with
    | idle =>
      simp only [Exchange.work, Exchange.threadProceeds] at he
      split at he
      · cases he
        exact take_step hget rfl ‹_›
      · cases he
        exact .moves w .idle .receiving hget rfl rfl
    | receiving => exact take_step hget rfl he
    | holding work =>
      simp only [Exchange.work, Exchange.threadProceeds] at he
      split at he
      · cases he
        exact .calls w work hget
      · cases he
        exact .responds w (.holding work) work _ hget rfl
    | calling work => cases he
    | ended => cases he
  | result result =>
    cases thread with
    | calling work =>
      cases he
      exact .responds w (.calling work) work _ hget rfl
    | idle | receiving | holding | ended => cases he
  | syslog =>
    cases thread with
    | idle | receiving =>
      cases he
      exact .moves w _ .idle hget rfl rfl
    | holding | calling | ended => cases he
  | quit =>
    cases thread with
    | idle | receiving =>
      cases he
      exact .moves w _ .ended hget rfl rfl
    | holding work | calling work =>
      cases he
      exact .abandons w _ work hget rfl
    | ended => cases he

theorem exec_step {action : Action} (he : s.exec config action = some t) : Step config s t := by
  cases action with
  | arrive parts declaredLen =>
    cases he
    exact .arrives parts declaredLen
  | handler i event =>
    rcases Option.bind_eq_some_iff.mp he with ⟨h, hget, hrest⟩
    exact handle_step hget hrest
  | hire =>
    cases he
    exact .hires
  | thread w event =>
    rcases Option.bind_eq_some_iff.mp he with ⟨thread, hget, hrest⟩
    exact work_step hget hrest
  | disconnect =>
    simp only [Exchange.exec, Exchange.disconnect] at he
    split at he
    · cases he
      exact .disconnects
    · cases he
  | tick =>
    cases he
    exact .ticks

end HyperRuby.Http
