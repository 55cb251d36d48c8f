import HyperRuby.Http.Exchange
import HyperRuby.Http.Shape
import HyperRuby.Library.Reply

/-! # A call that waits is attended to

A call of `handle_request` that waits for its response is the client of the
thread that has its request. Calls may go away while they wait; the others find
a response, or a sender dropped, or their request in the channel or with a
thread.
-/
namespace HyperRuby.Http
open Library

variable {config : HandoffConfig} {s t : Exchange}

section Stakes

def Oneshot.vacant (o : Oneshot) : Bool := o.content = .empty

/-- The oneshot of a request that has not been sent. -/
def Stage.drafts : Stage → Multiset ℕ
  | .sending completion _ | .polling completion _ | .sleeping completion _ _ =>
    {completion.responseTx}
  | _ => 0

def Stage.waitsOn : Stage → Multiset ℕ
  | .waiting responseRx _ => {responseRx}
  | _ => 0

def Stage.stakes (stage : Stage) : Stakes ℕ := (stage.drafts, stage.waitsOn, 0)

def Thread.holds (thread : Thread) : Multiset RequestWithCompletion := thread.work.toList

theorem holds_of_taken {thread : Thread} {work : RequestWithCompletion}
    (h : thread.work = some work) : thread.holds = {work} := by
  rw [Thread.holds, h]
  rfl

theorem holds_of_free {thread : Thread} (h : thread.work = none) : thread.holds = 0 := by
  rw [Thread.holds, h]
  rfl

/-- The requests in the channel and with the threads. -/
def Exchange.held (s : Exchange) : Multiset RequestWithCompletion :=
  ↑s.queue + (s.threads.map Thread.holds).sum

/-- The oneshots that requests in the channel and with the threads are to be answered on. -/
def Exchange.dues (s : Exchange) : Multiset ℕ := s.held.map RequestWithCompletion.responseTx

def Exchange.stakes (s : Exchange) : Stakes ℕ :=
  (s.handlers.map (fun h => h.stage.stakes)).sum + (0, 0, s.dues)

end Stakes

/-- A change that keeps calls and requests matched, whatever the other calls do. -/
abbrev Attends (a : Stakes ℕ) (slots : List Oneshot) (b : Stakes ℕ) (slots' : List Oneshot) :
    Prop :=
  Update (fun tx => tx) Oneshot.vacant true a slots b slots'

section Steps

theorem vacant_put {content : Content} (hcontent : content ≠ .empty) (o : Oneshot) :
    (o.put content).vacant = false := by
  unfold Oneshot.put Oneshot.vacant
  split_ifs with h
  · simpa using hcontent
  · simpa using h

theorem waiting_done {i rx : ℕ} {h : Handler} {isGrpc : Bool} {event : HandlerEvent}
    (hstage : h.stage = .waiting rx isGrpc) (he : s.handle config i h event = some t) :
    ¬ Open Oneshot.vacant t.oneshots rx := by
  cases event with
  | body collected => simp [Exchange.handle, hstage] at he
  | expire => simp [Exchange.handle, hstage] at he
  | proceed receiver =>
    simp only [Exchange.handle, Exchange.proceed, hstage] at he
    split at he
    case h_1 hcontent | h_2 hcontent =>
      rcases Option.map_eq_some_iff.mp hcontent with ⟨o, ho, hused⟩
      cases he
      simp [Open, Exchange.enter, ho, Oneshot.vacant, hused]
    case h_3 => cases he
  | drop =>
    simp only [Exchange.handle, Exchange.drop, hstage] at he
    cases he
    have hgone : ∀ o : Oneshot, o.dropReceiver.vacant = false := fun o => rfl
    exact fun hopen => ((open_modify hgone rx rx).mp hopen).2 rfl

/-- A call stops waiting only with its oneshot used or given up. -/
theorem waiting_stays (hs : s.Classified) {action : Action} (he : s.exec config action = some t)
    {i rx : ℕ} {h : Handler} {isGrpc : Bool} (hget : s.handlers[i]? = some h)
    (hstage : h.stage = .waiting rx isGrpc) :
    t.handlers[i]? = some h ∨ ¬ Open Oneshot.vacant t.oneshots rx := by
  cases action with
  | arrive parts declaredLen =>
    cases he
    left
    rw [List.getElem?_append_left (List.getElem?_eq_some_iff.mp hget).1]
    exact hget
  | handler j event =>
    rcases Option.bind_eq_some_iff.mp he with ⟨g, hfound, hrest⟩
    by_cases hij : j = i
    · subst hij
      obtain rfl : h = g := Option.some.inj (hget.symm.trans hfound)
      exact .inr (waiting_done hstage hrest)
    · left
      rcases handle_enters rfl (hs g (List.mem_of_getElem? hfound)) hrest with ⟨stage, hhandlers, -⟩
      rw [hhandlers, List.getElem?_set_ne hij]
      exact hget
  | thread w event =>
    rcases Option.bind_eq_some_iff.mp he with ⟨thread, -, hrest⟩
    left
    rw [(work_produced hrest).1]
    exact hget
  | disconnect =>
    left
    rw [disconnect_handlers he]
    exact hget
  | hire | tick =>
    cases he
    exact .inl hget

theorem Turn.attends {oneshots : List Oneshot} {stage stage' : Stage}
    (h : Turn oneshots stage stage')
    (hwaits : ∀ rx isGrpc, stage = .waiting rx isGrpc → ¬ Open Oneshot.vacant oneshots rx) :
    Attends stage.stakes oneshots stage'.stakes oneshots := by
  cases h with
  | failed | expired | mismatched | full | sleeps | wakes => exact .refl
  | disconnected completion | timedOut completion => exact .scrap completion.responseTx
  | answered rx isGrpc | unanswered rx isGrpc => exact .collect rx (hwaits rx isGrpc rfl)
  | dropped stage going =>
    cases stage with
    | collecting | failed | dropped => exact .refl
    | sending completion | polling completion | sleeping completion =>
      exact .scrap completion.responseTx
    | waiting rx isGrpc => exact .collect rx (hwaits rx isGrpc rfl)
    | returned origin response => exact absurd rfl (going origin response)

theorem attends_enter {u : Exchange} {i : ℕ} {h : Handler} {stage : Stage}
    (hget : s.handlers[i]? = some h) (hhandlers : u.handlers = s.handlers)
    (hchange : Attends (h.stage.stakes + (0, 0, s.dues)) s.oneshots (stage.stakes + (0, 0, u.dues))
      u.oneshots) :
    Attends s.stakes s.oneshots (u.enter i h stage).stakes u.oneshots := by
  rcases tally_set (fun h : Handler => h.stage.stakes) hget { h with stage := stage }
    with ⟨rest, hold, hnew⟩
  refine (hchange.frame rest).cast ?_ ?_
  · rw [Exchange.stakes, hold, add_right_comm]
  · have hdues : (u.enter i h stage).dues = u.dues := rfl
    rw [Exchange.stakes, hdues, Exchange.enter, hhandlers, hnew, add_right_comm]

theorem attends_thread {u : Exchange} (hhandlers : u.handlers = s.handlers)
    (hchange : Attends (0, 0, s.dues) s.oneshots (0, 0, u.dues) u.oneshots) :
    Attends s.stakes s.oneshots u.stakes u.oneshots := by
  refine (hchange.frame (s.handlers.map (fun h => h.stage.stakes)).sum).cast ?_ ?_
  · rw [Exchange.stakes, add_comm]
  · rw [Exchange.stakes, hhandlers, add_comm]

theorem attends_dropped (queue : List RequestWithCompletion) (u : Exchange) :
    Attends (0, 0, (queue.map RequestWithCompletion.responseTx : List ℕ)) u.oneshots 0
      (queue.foldl (fun s work => s.put work.responseTx .senderDropped) u).oneshots := by
  induction queue generalizing u with
  | nil => exact .refl
  | cons work queue ih =>
    have hfirst : Attends (0, 0, {work.responseTx}) u.oneshots 0
        (u.oneshots.modify work.responseTx (Oneshot.put .senderDropped)) :=
      .answer work.responseTx (vacant_put (by simp))
    refine Update.trans
      ((hfirst.frame (0, 0, (queue.map RequestWithCompletion.responseTx : List ℕ))).cast ?_ ?_)
      (ih (u.put work.responseTx .senderDropped))
    · simp [← Multiset.cons_coe]
    · simp

theorem attends_done {w : ℕ} {thread : Thread} (free : Thread) {work : RequestWithCompletion}
    (content : Content) (hget : s.threads[w]? = some thread) (taken : thread.work = some work)
    (hfree : free.work = none) (hcontent : content ≠ .empty) {u : Exchange}
    (hhandlers : u.handlers = s.handlers) (hqueue : u.queue = s.queue)
    (hthreads : u.threads = s.threads.set w free)
    (honeshots : u.oneshots = s.oneshots.modify work.responseTx (Oneshot.put content)) :
    Attends s.stakes s.oneshots u.stakes u.oneshots := by
  rcases tally_set Thread.holds hget free with ⟨rest, hold, hnew⟩
  rw [holds_of_taken taken] at hold
  rw [holds_of_free hfree, zero_add] at hnew
  apply attends_thread hhandlers
  rw [honeshots]
  refine ((Update.answer work.responseTx (vacant_put hcontent)).frame
    (0, 0, (↑s.queue + rest : Multiset RequestWithCompletion).map
      RequestWithCompletion.responseTx)).cast ?_ ?_
  · simp only [Exchange.dues, Exchange.held, hold, Multiset.map_add, Multiset.map_singleton,
      Prod.mk_add_mk, add_zero]
    rw [add_left_comm]
  · simp only [Exchange.dues, Exchange.held, hqueue, hthreads, hnew, zero_add]

theorem attends_kept {u : Exchange} (hhandlers : u.handlers = s.handlers) (hheld : u.held = s.held)
    (honeshots : u.oneshots = s.oneshots) :
    Attends s.stakes s.oneshots u.stakes u.oneshots := by
  apply attends_thread hhandlers
  rw [honeshots, Exchange.dues, Exchange.dues, hheld]
  exact .refl

theorem attends_sent {u : Exchange} {i : ℕ} {h : Handler} {completion : RequestWithCompletion}
    {start : Option ℕ} {isGrpc : Bool} (hget : s.handlers[i]? = some h)
    (hstage : h.stage = .sending completion start) (hhandlers : u.handlers = s.handlers)
    (hheld : u.held = {completion} + s.held) (honeshots : u.oneshots = s.oneshots) :
    Attends s.stakes s.oneshots
      (u.enter i h (.waiting completion.responseTx isGrpc)).stakes u.oneshots := by
  apply attends_enter hget hhandlers
  rw [honeshots, hstage]
  refine ((Update.send completion.responseTx).frame (0, 0, s.dues)).cast rfl ?_
  simp [Stage.stakes, Stage.drafts, Stage.waitsOn, Exchange.dues, hheld]

theorem exec_attends {action : Action} (hs : s.Classified) (he : s.exec config action = some t) :
    Attends s.stakes s.oneshots t.stakes t.oneshots := by
  have hstep := exec_step he
  cases hstep with
  | arrives parts declaredLen =>
    refine Update.refl.cast rfl ?_
    simp [Exchange.stakes, Exchange.dues, Exchange.held, Stage.stakes, Stage.drafts, Stage.waitsOn]
  | turns i h stage hget turn =>
    refine attends_enter hget rfl ((turn.attends ?_).frame (0, 0, s.dues))
    intro rx isGrpc hstage
    rcases waiting_stays hs he hget hstage with hsame | hdone
    · rw [Exchange.enter, List.getElem?_set_self (List.getElem?_eq_some_iff.mp hget).1] at hsame
      have hstill : stage = h.stage := congrArg Handler.stage (Option.some.inj hsame)
      rw [hstill, hstage] at turn
      cases turn
    · exact hdone
  | offers i h declaredLen since request hget hstage =>
    apply attends_enter hget (u := { s with oneshots := s.oneshots ++ [⟨i, .empty⟩] }) rfl
    rw [hstage]
    exact (Update.draft s.oneshots.length (⟨i, .empty⟩ : Oneshot) rfl rfl).frame (0, 0, s.dues)
  | queues i h completion start isGrpc hget hstage room =>
    refine attends_sent hget hstage rfl ?_ rfl
    simp only [Exchange.held, ← Multiset.coe_add, Multiset.coe_singleton]
    rw [add_right_comm, add_comm]
  | hands i h completion start isGrpc w hget hstage receiving =>
    refine attends_sent hget hstage rfl ?_ rfl
    rcases tally_set Thread.holds receiving (.holding completion) with ⟨rest, hold, hnew⟩
    rw [holds_of_free rfl, zero_add] at hold
    rw [holds_of_taken rfl] at hnew
    simp only [Exchange.held, hold, hnew]
    rw [add_left_comm]
  | leaves i h rx isGrpc hget hstage =>
    apply attends_enter hget
      (u := { s with oneshots := s.oneshots.modify rx Oneshot.dropReceiver }) rfl
    rw [hstage]
    exact (Update.leave rx (fun _ => rfl)).frame (0, 0, s.dues)
  | hires =>
    refine attends_kept rfl ?_ rfl
    have hfree : Thread.idle.holds = 0 := holds_of_free rfl
    simp [Exchange.held, hfree]
  | takes w thread work queue hget free hqueue =>
    refine attends_kept rfl ?_ rfl
    rcases tally_set Thread.holds hget (.holding work) with ⟨rest, hold, hnew⟩
    rw [holds_of_free free, zero_add] at hold
    rw [holds_of_taken rfl] at hnew
    simp only [Exchange.held, hold, hnew, hqueue, ← Multiset.cons_coe, ← Multiset.singleton_add]
    rw [add_left_comm, add_assoc]
  | moves w thread thread' hget free free' =>
    refine attends_kept rfl ?_ rfl
    rcases tally_set Thread.holds hget thread' with ⟨rest, hold, hnew⟩
    simp only [Exchange.held, hold, hnew, holds_of_free free, holds_of_free free']
  | calls w work hget =>
    refine attends_kept rfl ?_ rfl
    rcases tally_set Thread.holds hget (.calling work) with ⟨rest, hold, hnew⟩
    rw [holds_of_taken rfl] at hold hnew
    simp only [Exchange.held, hold, hnew]
  | responds w thread work response hget taken =>
    exact attends_done .idle (.value response) hget taken rfl (by simp) rfl rfl rfl rfl
  | abandons w thread work hget taken =>
    exact attends_done .ended .senderDropped hget taken rfl (by simp) rfl rfl rfl rfl
  | disconnects =>
    have hdropped := attends_dropped s.queue { s with queue := [], disconnected := true }
    rcases drop_senders_frame s.queue { s with queue := [], disconnected := true }
      with ⟨oneshots, hframe⟩
    rw [hframe] at hdropped ⊢
    refine attends_thread (s := s)
      (u := { s with queue := [], disconnected := true, oneshots := oneshots }) rfl ?_
    refine (hdropped.frame (0, 0, ((s.threads.map Thread.holds).sum.map
      RequestWithCompletion.responseTx))).cast ?_ ?_
    · simp [Exchange.dues, Exchange.held]
    · simp [Exchange.dues, Exchange.held]
  | ticks => exact .refl

theorem run_attended (h : Run config s) :
    Settled (fun tx => tx) Oneshot.vacant true s.stakes.1 s.stakes.2.1 s.stakes.2.2 s.oneshots := by
  apply h.invariant (fun s => Settled (fun tx => tx) Oneshot.vacant true s.stakes.1 s.stakes.2.1
    s.stakes.2.2 s.oneshots)
  · exact Settled.nil
  · exact fun s a t hs _ ih he => (exec_attends (Exchange.run_classified hs) he).settled ih

end Steps

end HyperRuby.Http
