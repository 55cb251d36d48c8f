import HyperRuby.Http.Waiters
import HyperRuby.Library.Progress
import Mathlib.Algebra.Order.BigOperators.Group.List

/-! # Every call comes to an end

What is left to do for the calls under way is counted in operations. The rounds
of the polling loop are paid for by the clock: each takes ten milliseconds of
the time that the call may wait.
-/
namespace HyperRuby.Http
open Library

variable {config : HandoffConfig} {s t u : Exchange}

section Left

/-- Rounds of the polling loop in a span of time. -/
def rounds (span : ℕ) : ℕ := (span + 9) / 10

/-- Operations left in a call, with those of the thread that gets its request. -/
def Stage.left (config : HandoffConfig) (now : ℕ) : Stage → ℕ
  | .collecting _ _ => 4 * rounds config.sendTimeout + 6
  | .sending _ none => 4 * rounds config.sendTimeout + 5
  | .sending _ (some start) => 4 * rounds (start + config.sendTimeout - now) + 5
  | .polling _ start => 4 * rounds (start + config.sendTimeout - now) + 4
  | .sleeping _ start wake => 4 * rounds (start + config.sendTimeout - wake) + 6
  | .waiting _ _ => 1
  | .returned _ _ | .failed | .dropped => 0

def Thread.left : Thread → ℕ
  | .holding _ => 2
  | .calling _ => 1
  | .idle | .receiving | .ended => 0

/-- Operations left behind the channel. -/
def Exchange.load (s : Exchange) : ℕ := 3 * s.queue.length + (s.threads.map Thread.left).sum

def Exchange.left (config : HandoffConfig) (s : Exchange) : ℕ :=
  (s.handlers.map (fun h => h.stage.left config s.now)).sum + s.load

end Left

section Calls
variable {i : ℕ} {h : Handler}

theorem enter_left {stage : Stage} (hget : s.handlers[i]? = some h)
    (hhandlers : u.handlers = s.handlers) (hnow : u.now = s.now)
    (hlt : stage.left config s.now + u.load < h.stage.left config s.now + s.load) :
    (u.enter i h stage).left config < s.left config := by
  rcases tally_set (fun h : Handler => h.stage.left config s.now) hget { h with stage := stage }
    with ⟨rest, hold, hnew⟩
  have hload : (u.enter i h stage).load = u.load := rfl
  have hthen : (u.enter i h stage).now = s.now := hnow
  have hset : (u.enter i h stage).handlers = s.handlers.set i { h with stage := stage } := by
    rw [← hhandlers]
    rfl
  dsimp only at hnew
  rw [Exchange.left, Exchange.left, hload, hthen, hset, hold, hnew]
  omega

theorem Tried.load {completion : RequestWithCompletion} {outcome : TrySend}
    (h : Tried config s completion outcome t) :
    t.handlers = s.handlers ∧ t.now = s.now ∧
      t.load ≤ s.load + if outcome = .ok then 3 else 0 := by
  cases h with
  | queued room =>
    refine ⟨rfl, rfl, ?_⟩
    simp only [Exchange.load, List.length_append, List.length_singleton, if_true]
    omega
  | handed w receiving =>
    rcases tally_set Thread.left receiving (.holding completion) with ⟨rest, hold, hnew⟩
    refine ⟨rfl, rfl, ?_⟩
    simp only [Exchange.load, hold, hnew, Thread.left, if_true]
    omega
  | full | disconnected => exact ⟨rfl, rfl, le_rfl⟩

theorem polling_left (config : HandoffConfig) (completion : RequestWithCompletion)
    (start : Option ℕ) (now : ℕ) :
    (Stage.polling completion (start.getD now)).left config now <
      (Stage.sending completion start).left config now := by
  cases start <;> simp [Stage.left]

theorem sending_left (config : HandoffConfig) (completion : RequestWithCompletion)
    (start : Option ℕ) (now : ℕ) :
    5 ≤ (Stage.sending completion start).left config now := by
  cases start <;> simp [Stage.left]

theorem offer_left {completion : RequestWithCompletion} {start receiver : Option ℕ}
    (hget : s.handlers[i]? = some h) (hstage : h.stage = .sending completion start)
    (he : s.offer config i h completion start receiver = some t) :
    t.left config < s.left config := by
  have hfive : 5 ≤ h.stage.left config s.now := hstage ▸ sending_left config completion start s.now
  unfold Exchange.offer at he
  dsimp only at he
  split at he
  case h_1 => cases he
  case h_2 u htry =>
    rcases (tried_of_trySend htry).load with ⟨hhandlers, hnow, hload⟩
    cases he
    apply enter_left hget hhandlers hnow
    change 1 + u.load < _
    simp only [if_true] at hload
    omega
  case h_3 u htry =>
    rcases (tried_of_trySend htry).load with ⟨hhandlers, hnow, hload⟩
    cases he
    apply enter_left hget hhandlers hnow
    have hpoll := polling_left config completion start s.now
    rw [hnow, hstage]
    simp only [reduceCtorEq, if_false] at hload
    omega
  case h_4 u htry =>
    rcases (tried_of_trySend htry).load with ⟨hhandlers, hnow, hload⟩
    cases he
    apply enter_left hget hhandlers hnow
    change 0 + u.load < _
    simp only [reduceCtorEq, if_false] at hload
    omega

theorem proceed_left {receiver : Option ℕ} (hget : s.handlers[i]? = some h)
    (he : s.proceed config i h receiver = some t) : t.left config < s.left config := by
  unfold Exchange.proceed at he
  split at he
  case h_1 completion start hstage => exact offer_left hget hstage he
  case h_2 completion start hstage =>
    split_ifs at he with hlate
    · cases he
      apply enter_left hget rfl rfl
      simp only [hstage, Stage.left]
      omega
    · -- a round of the loop: it sleeps for a tenth of what it counts in
      cases he
      apply enter_left hget rfl rfl
      simp only [hstage, Stage.left, rounds]
      omega
  case h_3 completion start wake hstage =>
    split_ifs at he with hawake
    cases he
    apply enter_left hget rfl rfl
    simp only [hstage, Stage.left, rounds]
    omega
  case h_4 rx isGrpc hstage =>
    split at he
    case h_1 | h_2 =>
      cases he
      apply enter_left hget rfl rfl
      simp only [hstage, Stage.left]
      omega
    case h_3 => cases he
  case h_5 => cases he

theorem handle_left {event : HandlerEvent} (hget : s.handlers[i]? = some h)
    (he : s.handle config i h event = some t) : t.left config < s.left config := by
  cases event with
  | body collected =>
    simp only [Exchange.handle] at he
    split at he
    case h_1 declaredLen since body hstage =>
      unfold Exchange.collected at he
      split_ifs at he
      · cases he
        apply enter_left hget rfl rfl
        simp only [hstage, Stage.left]
        omega
      · cases he
        apply enter_left hget (u := { s with oneshots := s.oneshots ++ [⟨i, .empty⟩] }) rfl rfl
        simp only [hstage, Stage.left, Exchange.load]
        omega
    case h_2 declaredLen since hstage =>
      cases he
      apply enter_left hget rfl rfl
      simp only [hstage, Stage.left]
      omega
    case h_3 => cases he
  | expire =>
    simp only [Exchange.handle] at he
    split at he
    case h_1 declaredLen since hstage =>
      split_ifs at he
      cases he
      apply enter_left hget rfl rfl
      simp only [hstage, Stage.left]
      omega
    case h_2 => cases he
  | proceed receiver => exact proceed_left hget he
  | drop =>
    simp only [Exchange.handle, Exchange.drop] at he
    cases hstage : h.stage with
    | returned | failed | dropped =>
      rw [hstage] at he
      cases he
    | waiting rx isGrpc =>
      rw [hstage] at he
      cases he
      apply enter_left hget
        (u := { s with oneshots := s.oneshots.modify rx Oneshot.dropReceiver }) rfl rfl
      simp only [hstage, Stage.left, Exchange.load]
      omega
    | sending completion start =>
      rw [hstage] at he
      cases he
      apply enter_left hget rfl rfl
      have hfive := sending_left config completion start s.now
      rw [hstage]
      change 0 + s.load < _
      omega
    | collecting | polling | sleeping =>
      rw [hstage] at he
      cases he
      apply enter_left hget rfl rfl
      simp only [hstage, Stage.left]
      omega

end Calls

section Threads
variable {w : ℕ} {thread : Thread} {work : RequestWithCompletion}

theorem thread_left (config : HandoffConfig) {free : Thread} (hget : s.threads[w]? = some thread)
    (hhandlers : u.handlers = s.handlers) (hnow : u.now = s.now) (hqueue : u.queue = s.queue)
    (hthreads : u.threads = s.threads.set w free) :
    u.left config + thread.left = s.left config + free.left := by
  rcases tally_set Thread.left hget free with ⟨rest, hold, hnew⟩
  rw [Exchange.left, Exchange.left, Exchange.load, Exchange.load, hhandlers, hnow, hqueue, hthreads,
    hold, hnew]
  omega

theorem take_left (hget : s.threads[w]? = some thread) (he : s.take w = some t) :
    t.left config < s.left config := by
  unfold Exchange.take at he
  split at he
  case h_1 work queue hqueue =>
    cases he
    rcases tally_set Thread.left hget (.holding work) with ⟨rest, hold, hnew⟩
    simp only [Exchange.left, Exchange.load, hold, hnew, hqueue, List.length_cons, Thread.left]
    omega
  case h_2 => cases he

theorem busy_left {event : ThreadEvent} (hget : s.threads[w]? = some thread)
    (taken : thread.work = some work) (he : s.work w thread event = some t) :
    t.left config < s.left config := by
  have hless : ∀ {u : Exchange} (free : Thread), free.left < thread.left →
      u.handlers = s.handlers → u.now = s.now → u.queue = s.queue →
      u.threads = s.threads.set w free → u.left config < s.left config := by
    intro u free hlt hhandlers hnow hqueue hthreads
    have := thread_left config hget hhandlers hnow hqueue hthreads
    omega
  cases thread with
  | idle | receiving | ended => cases taken
  | holding work =>
    cases event with
    | proceed =>
      simp only [Exchange.work, Exchange.threadProceeds] at he
      split at he
      case h_1 =>
        cases he
        exact hless (.calling work) (by simp [Thread.left]) rfl rfl rfl rfl
      case h_2 =>
        cases he
        exact hless .idle (by simp [Thread.left]) rfl rfl rfl rfl
    | quit =>
      cases he
      exact hless .ended (by simp [Thread.left]) rfl rfl rfl rfl
    | result | syslog => cases he
  | calling work =>
    cases event with
    | result result =>
      cases he
      exact hless .idle (by simp [Thread.left]) rfl rfl rfl rfl
    | quit =>
      cases he
      exact hless .ended (by simp [Thread.left]) rfl rfl rfl rfl
    | proceed | syslog => cases he

theorem work_left {event : ThreadEvent} (hget : s.threads[w]? = some thread)
    (he : s.work w thread event = some t) : t.left config ≤ s.left config := by
  cases htaken : thread.work with
  | some work => exact (busy_left hget htaken he).le
  | none =>
    have hsame : ∀ {u : Exchange} (free : Thread), free.left = thread.left →
        u.handlers = s.handlers → u.now = s.now → u.queue = s.queue →
        u.threads = s.threads.set w free → u.left config ≤ s.left config := by
      intro u free heq hhandlers hnow hqueue hthreads
      have := thread_left config hget hhandlers hnow hqueue hthreads
      omega
    cases thread with
    | holding | calling => cases htaken
    | ended => cases event <;> cases he
    | idle =>
      cases event with
      | proceed =>
        simp only [Exchange.work, Exchange.threadProceeds] at he
        split at he
        case h_1 u htake =>
          cases he
          exact (take_left hget htake).le
        case h_2 =>
          cases he
          exact hsame .receiving rfl rfl rfl rfl rfl
      | syslog =>
        cases he
        exact hsame .idle rfl rfl rfl rfl rfl
      | quit =>
        cases he
        exact hsame .ended rfl rfl rfl rfl rfl
      | result => cases he
    | receiving =>
      cases event with
      | proceed => exact (take_left hget he).le
      | syslog =>
        cases he
        exact hsame .idle rfl rfl rfl rfl rfl
      | quit =>
        cases he
        exact hsame .ended rfl rfl rfl rfl rfl
      | result => cases he

end Threads
section Runs
variable {action : Action}

def Action.arrives : Action → Bool
  | .arrive _ _ => true
  | _ => false

def Action.byCall : Action → Bool
  | .handler _ _ => true
  | _ => false

theorem Stage.left_later (stage : Stage) (now k : ℕ) :
    stage.left config (now + k) ≤ stage.left config now := by
  cases stage with
  | sending completion start =>
    cases start with
    | none => exact le_rfl
    | some start =>
      simp only [Stage.left, rounds]
      omega
  | polling completion start =>
    simp only [Stage.left, rounds]
    omega
  | _ => exact le_rfl

theorem later_left (config : HandoffConfig) (s : Exchange) (k : ℕ) :
    Exchange.left config { s with now := s.now + k } ≤ s.left config :=
  Nat.add_le_add_right (List.sum_le_sum fun h _ => h.stage.left_later s.now k) s.load

/-- Without new calls, no action adds to what is left, and those of calls take something off. -/
theorem exec_left (ha : action.arrives = false) (he : s.exec config action = some t) :
    (if action.byCall then 1 else 0) + t.left config ≤ s.left config := by
  cases action with
  | arrive => cases ha
  | handler i event =>
    rcases Option.bind_eq_some_iff.mp he with ⟨h, hget, hrest⟩
    have hlt := handle_left hget hrest
    simp only [Action.byCall, if_true]
    omega
  | hire =>
    cases he
    simp [Action.byCall, Exchange.left, Exchange.load, Thread.left]
  | thread w event =>
    rcases Option.bind_eq_some_iff.mp he with ⟨thread, hget, hrest⟩
    simpa [Action.byCall] using work_left hget hrest
  | disconnect =>
    simp only [Exchange.exec, Exchange.disconnect] at he
    split_ifs at he
    cases he
    rcases drop_senders_frame s.queue { s with queue := [], disconnected := true }
      with ⟨oneshots, hframe⟩
    rw [hframe]
    simp [Action.byCall, Exchange.left, Exchange.load]
  | tick =>
    cases he
    simpa [Action.byCall] using later_left config s 1

end Runs
end HyperRuby.Http
