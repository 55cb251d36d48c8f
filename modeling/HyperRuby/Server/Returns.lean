import HyperRuby.Server.Steps
import HyperRuby.Library.Progress

/-! # The worker threads return

`stop` drops the senders of both channels. From then on nothing is sent, every look of a thread
at a channel brings it nearer to a work item or to its end, and no thread is left waiting.
-/
namespace HyperRuby.Server
open Library

variable {settings : Settings} {s t : State} {w : ℕ} {th : Thread}

/-- The looks at a channel that a call may still take. -/
def stageLeft : Worker.Stage → ℕ
  | .syslogFirst => 4
  | .http _ => 3
  | .syslogLast => 2
  | .selecting => 1
  | .ended => 0

/-- The steps a thread may still take before its next work item. -/
def Thread.left (th : Thread) : ℕ :=
  match th.place with
  | .choosing stage => stageLeft stage
  | .holding _ => 6
  | .calling _ | .delivering _ => 5

namespace State

def left (s : State) : ℕ :=
  6 * (s.work.length + s.shared.queue.length) + (s.threads.map Thread.left).sum

/-- All senders are gone. -/
def Closed (s : State) : Prop := s.workClosed = true ∧ s.syslogClosed = true

end State

def Action.byThread : Action → Bool
  | .thread _ _ => true
  | _ => false

/-- The steps of threads that are not torn down, with blocks that return. -/
def Action.running : Action → Bool
  | .thread _ .quit => false
  | .thread _ _ => true
  | _ => false

theorem stageLeft_enter (ratio streak : UInt32) : stageLeft (.enter ratio streak) ≤ 4 := by
  unfold Worker.Stage.enter
  split_ifs <;> simp [stageLeft]

theorem Looked.left {stage stage' : Worker.Stage} (h : Looked s stage stage') :
    stageLeft stage' < stageLeft stage := by
  cases h with
  | noDelivery | nothing => simp [stageLeft]
  | noRequest first => cases first <;> simp [stageLeft]
  | closed stage going => cases stage <;> simp_all [stageLeft]

theorem left_set {th' : Thread} (hget : s.threads[w]? = some th)
    (hset : t.threads = s.threads.set w th')
    (hlt : 6 * (t.work.length + t.shared.queue.length) + th'.left <
      6 * (s.work.length + s.shared.queue.length) + th.left) : t.left < s.left := by
  rcases tally_set Thread.left hget th' with ⟨rest, hs, ht⟩
  rw [State.left, State.left, hset, hs, ht]
  omega

theorem Worked.left (hget : s.threads[w]? = some th) (h : Worked settings s w th t) :
    t.left < s.left := by
  cases h with
  | looks stage stage' place looked =>
    have hlt := looked.left
    refine left_set hget rfl (Nat.add_lt_add_left ?_ _)
    simpa [Thread.left, place] using hlt
  | takesMessage stage d queue place front pc =>
    have hlook : 1 ≤ stageLeft stage := by rcases pc with rfl | rfl | rfl <;> simp [stageLeft]
    apply left_set hget rfl
    simp [State.setThread, Thread.left, place, front]
    omega
  | takesRequest stage work queue streak place going front pc =>
    have hlook : 1 ≤ stageLeft stage := by cases stage <;> simp_all [stageLeft]
    apply left_set hget rfl
    simp [State.setThread, Thread.left, place, front]
    omega
  | calls work ruby place =>
    refine left_set hget rfl (Nat.add_lt_add_left ?_ _)
    simp [Thread.left, place]
  | refuses work place | responds work result place | decides d result place =>
    have henter := stageLeft_enter settings.workRatio th.streak
    refine left_set hget rfl (Nat.add_lt_add_left ?_ _)
    simp only [Thread.left, Thread.next, place]
    omega
  | stops stage place going =>
    refine left_set hget rfl (Nat.add_lt_add_left ?_ _)
    cases stage <;> simp_all [Thread.left, Thread.stop, stageLeft]
  | dropsRequest work place =>
    refine left_set hget rfl (Nat.add_lt_add_left ?_ _)
    rcases place with place | place <;> simp [Thread.left, Thread.stop, stageLeft, place]
  | dropsMessage d place =>
    refine left_set hget rfl (Nat.add_lt_add_left ?_ _)
    simp [Thread.left, Thread.stop, stageLeft, place]

theorem Worked.closed (h : Worked settings s w th t) : s.Closed → t.Closed := by
  intro hclosed
  cases h <;> exact hclosed

theorem State.Closed.left {action : Action} (hclosed : s.Closed) (hhire : action ≠ .hire)
    (h : Step settings s action t) :
    t.Closed ∧ (if action.byThread then 1 else 0) + t.left ≤ s.left := by
  cases h with
  | http action e admits step =>
    cases action with
    | tick =>
      cases step
      exact ⟨hclosed, le_of_eq (Nat.zero_add _)⟩
    | arrive | handler => simp [State.admitsHttp, hclosed.1] at admits
    | hire | thread | disconnect => cases admits
  | syslog action u admits step =>
    cases Dispatch.exec_step step with
    | stopAccepting | wait | complete | timeout | swap | abandon | elsewhere =>
      exact ⟨hclosed, le_of_eq (Nat.zero_add _)⟩
    | listener | reader | delivery | receiver | task =>
      simp [State.admitsSyslog, hclosed.2] at admits
    | worker => cases admits
  | hires => exact absurd rfl hhire
  | works w event th _ hget worked =>
    have hlt := worked.left hget
    refine ⟨worked.closed hclosed, ?_⟩
    simp only [Action.byThread, if_true]
    omega
  | closesWork => exact ⟨⟨rfl, hclosed.2⟩, le_of_eq (Nat.zero_add _)⟩
  | closesSyslog => exact ⟨⟨hclosed.1, rfl⟩, le_of_eq (Nat.zero_add _)⟩
  | dropsWork => exact ⟨hclosed, by simp [State.left, Action.byThread]⟩
  | dropsSyslog sh ended step receivers queue =>
    exact ⟨hclosed, by simp [State.left, Action.byThread, queue]⟩

theorem operate_closed {ratio : UInt32} {seen : Seen} (hwork : seen.work.disconnected = true)
    (hsyslog : seen.syslog.disconnected = true) (hgoing : seen.stage ≠ .ended) :
    ∃ seen', seen.operate ratio .http = some seen' := by
  unfold Worker.State.operate Worker.trySyslogWorkItem Worker.tryHttpWorkItem Worker.Channel.tryRecv
  cases hstage : seen.stage <;> cases hq : seen.work.queue <;> cases hd : seen.syslog.queue <;>
    simp_all

theorem chooseHttp_closed {seen : Seen} (hwork : seen.work.disconnected = true)
    (hgoing : seen.stage ≠ .ended) : ∃ seen', chooseHttp seen = some seen' := by
  unfold chooseHttp Worker.nextHttpWorkItem Worker.tryHttpWorkItem Worker.Channel.tryRecv
  cases hq : seen.work.queue <;> simp_all

/-- A thread on closed channels is never left waiting. -/
theorem State.Closed.moves (settings : Settings) (w : ℕ) (hclosed : s.Closed)
    (hgoing : th.place ≠ .choosing .ended) :
    ∃ event, Action.running (.thread w event) = true ∧
      (s.runWorker settings w th event).isSome = true := by
  cases hplace : th.place with
  | choosing stage =>
    have hstage : stage ≠ .ended := by
      rintro rfl
      exact hgoing hplace
    have hchoose : ∃ seen, (if settings.enabled then
        (s.seen th stage).operate settings.workRatio .http
        else chooseHttp (s.seen th stage)) = some seen := by
      split_ifs
      · exact operate_closed hclosed.1 hclosed.2 hstage
      · exact chooseHttp_closed hclosed.1 hstage
    rcases hchoose with ⟨seen, hseen⟩
    refine ⟨.choose .http, rfl, ?_⟩
    simp [State.runWorker, hplace, State.choose, hseen]
  | holding work =>
    refine ⟨.convert, rfl, ?_⟩
    cases hruby : Http.toRuby work.request <;> simp [State.runWorker, hplace, hruby]
  | calling work =>
    refine ⟨.returns .other true, rfl, ?_⟩
    simp [State.runWorker, hplace]
  | delivering d =>
    refine ⟨.returns .other true, rfl, ?_⟩
    simp [State.runWorker, hplace]

/-- Where no thread can go on, all of them have ended. -/
theorem State.Closed.ended (hclosed : s.Closed)
    (hrest : Rests (State.exec settings) (fun _ a => a.running = true) s) :
    ∀ th ∈ s.threads, th.place = .choosing .ended := by
  intro th hth
  by_contra hgoing
  rcases List.getElem?_of_mem hth with ⟨w, hget⟩
  rcases hclosed.moves settings w hgoing with ⟨event, hrunning, hmoves⟩
  have hstuck := hrest _ hrunning
  rw [State.exec, hget] at hstuck
  have hnone : s.runWorker settings w th event = none := hstuck
  rw [hnone] at hmoves
  cases hmoves

theorem ne_hire_of_running {action : Action} (h : action.running = true) : action ≠ .hire := by
  rintro rfl
  cases h

theorem byThread_of_running {action : Action} (h : action.running = true) :
    action.byThread = true := by
  cases action <;> first | rfl | cases h

/-- Once the senders of both channels are gone, every call of `run_worker` returns. Without new
calls the threads take at most `s.left` steps, whatever else happens and whatever the blocks
come to, and a state in which no thread can go on has all of them ended; and the threads can
by themselves get there. -/
theorem workers_return (settings : Settings) (hclosed : s.Closed) :
    (∀ actions t, run (State.exec settings) (fun _ a => a ≠ .hire) s actions = some t →
      actions.countP Action.byThread ≤ s.left ∧
        (Rests (State.exec settings) (fun _ a => a.running = true) t →
          ∀ th ∈ t.threads, th.place = .choosing .ended)) ∧
    ∃ actions t, run (State.exec settings) (fun _ a => a.running = true) s actions = some t ∧
      ∀ th ∈ t.threads, th.place = .choosing .ended := by
  constructor
  · intro actions t hrun
    have hbound := run_countP_le State.Closed State.left Action.byThread
      (fun _ _ _ hs ha he => hs.left ha (exec_step he)) hrun hclosed
    exact ⟨by omega, hbound.1.ended⟩
  · have hfall : ∀ s a t, State.Closed s → a.running = true → s.exec settings a = some t →
        t.Closed ∧ t.left < s.left := by
      intro s a t hs ha he
      have hleft := hs.left (ne_hire_of_running ha) (exec_step he)
      rw [if_pos (byThread_of_running ha)] at hleft
      exact ⟨hleft.1, by omega⟩
    rcases exists_rests State.Closed State.left hfall hclosed with ⟨actions, t, hrun, ht, hrest⟩
    exact ⟨actions, t, hrun, ht.ended hrest⟩

/-- The senders go while the block runs for a message and a request waits whose call was
dropped. -/
theorem workers_return_busy :
    ∃ s : State, s.Reachable .shared ∧
      (s.Closed ∧ s.work.length = 1 ∧ s.threads.map Thread.left = [5]) ∧
      ∃ actions t,
        run (State.exec .shared) (fun _ a => a.running = true) s actions = some t ∧
        ∀ th ∈ t.threads, th.place = .choosing .ended := by
  have hrun : ∃ s : State, s.Reachable .shared ∧
      (s.workClosed = true ∧ s.syslogClosed = true) ∧ s.work.length = 1 ∧
        s.threads.map Thread.left = [5] :=
    exists_reached
      (requesting 0 ++ messaging ++ [.hire, .thread 0 (.choose .http), .http (.handler 0 .drop),
        .closeWork, .closeSyslog])
      (by decide +kernel)
  rcases hrun with ⟨s, hs, hclosed, hwork, hbusy⟩
  exact ⟨s, hs, ⟨hclosed, hwork, hbusy⟩, (workers_return .shared hclosed).2⟩

end HyperRuby.Server
