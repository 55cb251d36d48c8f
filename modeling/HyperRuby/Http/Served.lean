import HyperRuby.Http.Completion

/-! # What calls and threads do by themselves

Between them they keep the threads that are left and lose no call. A channel
that is closed for good stays empty.
-/
namespace HyperRuby.Http
open Library

variable {config : HandoffConfig} {s t u : Exchange}

/-- What calls and threads do by themselves: no client leaves or sends, and the block returns. -/
def Action.own : Action → Bool
  | .handler _ .expire | .handler _ (.proceed _) => true
  | .thread _ .proceed | .thread _ (.result _) => true
  | .tick => true
  | _ => false

def Stage.returns : Stage → Bool
  | .returned _ _ => true
  | _ => false

/-- The future was dropped, or the body could not be read. -/
def Stage.lost : Stage → Bool
  | .failed | .dropped => true
  | _ => false

/-- A thread is left, or the channel is closed for good. -/
def Exchange.Served (s : Exchange) : Prop :=
  (∃ thread ∈ s.threads, thread ≠ .ended) ∨ s.disconnected = true

section Shut

/-- What a step of a call does to the channel and the threads. -/
structure Exchange.Yields (s u : Exchange) : Prop where
  handlers : u.handlers = s.handlers
  disconnected : u.disconnected = s.disconnected
  threads : u.threads = s.threads ∨ ∃ w work, u.threads = s.threads.set w (.holding work)
  shut : s.disconnected = true → u.queue = s.queue

theorem Exchange.Yields.refl (s : Exchange) : s.Yields s := ⟨rfl, rfl, .inl rfl, fun _ => rfl⟩

theorem trySend_yields {completion : RequestWithCompletion} {receiver : Option ℕ}
    {outcome : TrySend} (he : s.trySend config completion receiver = some (outcome, t)) :
    s.Yields t := by
  by_cases hgone : s.disconnected = true
  · simp only [Exchange.trySend, hgone, if_true] at he
    cases he
    exact .refl s
  · cases tried_of_trySend he with
    | queued => exact ⟨rfl, rfl, .inl rfl, fun h => absurd h hgone⟩
    | handed w => exact ⟨rfl, rfl, .inr ⟨w, completion, rfl⟩, fun h => absurd h hgone⟩
    | full | disconnected => exact .refl s

theorem proceed_yields {i : ℕ} {h : Handler} {receiver : Option ℕ}
    (he : s.proceed config i h receiver = some t) :
    ∃ u stage, s.Yields u ∧ t = u.enter i h stage ∧ stage.lost = false := by
  unfold Exchange.proceed at he
  split at he
  case h_1 completion start hstage =>
    unfold Exchange.offer at he
    dsimp only at he
    split at he
    case h_1 => cases he
    case h_2 u htry | h_3 u htry | h_4 u htry =>
      cases he
      exact ⟨u, _, trySend_yields htry, rfl, rfl⟩
  case h_2 completion start hstage =>
    split_ifs at he <;> cases he <;> exact ⟨s, _, .refl s, rfl, rfl⟩
  case h_3 completion start wake hstage =>
    split_ifs at he
    cases he
    exact ⟨s, _, .refl s, rfl, rfl⟩
  case h_4 rx isGrpc hstage =>
    split at he
    case h_1 | h_2 =>
      cases he
      exact ⟨s, _, .refl s, rfl, rfl⟩
    case h_3 => cases he
  case h_5 => cases he

structure Exchange.Works (s : Exchange) (w : ℕ) (event : ThreadEvent) (t : Exchange) : Prop where
  disconnected : t.disconnected = s.disconnected
  threads : ∃ thread, t.threads = s.threads.set w thread ∧ (event ≠ .quit → thread ≠ .ended)
  queue : t.queue = s.queue ∨ ∃ work, s.queue = work :: t.queue

theorem take_works {w : ℕ} (he : s.take w = some t) : s.Works w .proceed t := by
  unfold Exchange.take at he
  split at he
  case h_1 work queue hqueue =>
    cases he
    exact ⟨rfl, ⟨.holding work, rfl, by simp⟩, .inr ⟨work, hqueue⟩⟩
  case h_2 => cases he

theorem work_works {w : ℕ} {thread : Thread} {event : ThreadEvent}
    (he : s.work w thread event = some t) : s.Works w event t := by
  cases event with
  | proceed =>
    cases thread with
    | idle =>
      simp only [Exchange.work, Exchange.threadProceeds] at he
      split at he
      case h_1 htake =>
        cases he
        exact take_works htake
      case h_2 =>
        cases he
        exact ⟨rfl, ⟨.receiving, rfl, by simp⟩, .inl rfl⟩
    | receiving => exact take_works he
    | holding work =>
      simp only [Exchange.work, Exchange.threadProceeds] at he
      split at he
      case h_1 =>
        cases he
        exact ⟨rfl, ⟨.calling work, rfl, by simp⟩, .inl rfl⟩
      case h_2 =>
        cases he
        exact ⟨rfl, ⟨.idle, rfl, by simp⟩, .inl rfl⟩
    | calling | ended => cases he
  | result result =>
    cases thread with
    | calling work =>
      cases he
      exact ⟨rfl, ⟨.idle, rfl, by simp⟩, .inl rfl⟩
    | idle | receiving | holding | ended => cases he
  | syslog =>
    cases thread with
    | idle | receiving =>
      cases he
      exact ⟨rfl, ⟨.idle, rfl, by simp⟩, .inl rfl⟩
    | holding | calling | ended => cases he
  | quit =>
    cases thread with
    | idle | receiving | holding | calling =>
      cases he
      exact ⟨rfl, ⟨.ended, rfl, by simp⟩, .inl rfl⟩
    | ended => cases he

theorem exec_shut {action : Action} (hgone : s.disconnected = true) (hqueue : s.queue = [])
    (he : s.exec config action = some t) : t.queue = [] := by
  cases action with
  | arrive | hire | tick =>
    cases he
    exact hqueue
  | handler i event =>
    rcases Option.bind_eq_some_iff.mp he with ⟨h, -, hrest⟩
    cases event with
    | body collected =>
      simp only [Exchange.handle, Exchange.collected] at hrest
      split at hrest
      case h_1 => split_ifs at hrest <;> cases hrest <;> exact hqueue
      case h_2 =>
        cases hrest
        exact hqueue
      case h_3 => cases hrest
    | expire =>
      simp only [Exchange.handle] at hrest
      split at hrest
      case h_1 =>
        split_ifs at hrest
        cases hrest
        exact hqueue
      case h_2 => cases hrest
    | proceed receiver =>
      rcases proceed_yields hrest with ⟨u, stage, hu, rfl, -⟩
      exact (hu.shut hgone).trans hqueue
    | drop =>
      simp only [Exchange.handle, Exchange.drop] at hrest
      split at hrest
      case h_4 | h_5 =>
        cases hrest
        exact hqueue
      all_goals cases hrest
  | thread w event =>
    rcases Option.bind_eq_some_iff.mp he with ⟨thread, -, hrest⟩
    rcases (work_works hrest).queue with hsame | ⟨work, htaken⟩
    · exact hsame.trans hqueue
    · rw [hqueue] at htaken
      cases htaken
  | disconnect =>
    simp only [Exchange.exec, Exchange.disconnect] at he
    split_ifs at he
    cases he
    rcases drop_senders_frame s.queue { s with queue := [], disconnected := true }
      with ⟨oneshots, hframe⟩
    rw [hframe]

theorem run_shut (h : Run config s) : s.disconnected = true → s.queue = [] := by
  apply h.invariant (fun s => s.disconnected = true → s.queue = [])
  · exact fun _ => rfl
  intro s a t _ _ ih he hgone
  by_cases hbefore : s.disconnected = true
  · exact exec_shut hbefore (ih hbefore) he
  · -- only the last receiver closes the channel, and takes the queue along
    cases exec_step he with
    | disconnects =>
      rcases drop_senders_frame s.queue { s with queue := [], disconnected := true }
        with ⟨oneshots, hframe⟩
      rw [hframe]
    | _ => exact absurd hgone hbefore

end Shut

section Own
variable {action : Action}

theorem live_set {threads : List Thread} {w : ℕ} {next : Thread}
    (h : ∃ thread ∈ threads, thread ≠ .ended) (hnext : next ≠ .ended) :
    ∃ thread ∈ threads.set w next, thread ≠ .ended := by
  by_cases hw : w < threads.length
  · exact ⟨next, List.mem_set hw next, hnext⟩
  · rwa [List.set_eq_of_length_le (Nat.le_of_not_lt hw)]

theorem Exchange.Served.step (hs : s.Served) (ha : action.own = true)
    (he : s.exec config action = some t) : t.Served := by
  cases action with
  | handler i event =>
    rcases Option.bind_eq_some_iff.mp he with ⟨h, -, hrest⟩
    cases event with
    | expire =>
      simp only [Exchange.handle] at hrest
      split at hrest
      case h_1 =>
        split_ifs at hrest
        cases hrest
        exact hs
      case h_2 => cases hrest
    | proceed receiver =>
      rcases proceed_yields hrest with ⟨u, stage, hu, rfl, -⟩
      rcases hs with hlive | hgone
      · left
        change ∃ thread ∈ u.threads, thread ≠ .ended
        rcases hu.threads with hsame | ⟨w, work, hset⟩
        · rwa [hsame]
        · rw [hset]
          exact live_set hlive (by simp)
      · exact .inr (hu.disconnected.trans hgone)
    | body | drop => cases ha
  | thread w event =>
    rcases Option.bind_eq_some_iff.mp he with ⟨thread, -, hrest⟩
    have hworks := work_works hrest
    rcases hs with hlive | hgone
    · rcases hworks.threads with ⟨thread', hset, hleft⟩
      left
      rw [hset]
      refine live_set hlive (hleft ?_)
      rintro rfl
      cases ha
    · exact .inr (hworks.disconnected.trans hgone)
  | tick =>
    cases he
    exact hs
  | arrive | hire | disconnect => cases ha

/-- No call of `s` was lost on the way to `t`. -/
def Exchange.Keeps (s t : Exchange) : Prop :=
  ∀ (i : ℕ) (h : Handler), s.handlers[i]? = some h → h.stage.lost = false →
    ∃ h', t.handlers[i]? = some h' ∧ h'.stage.lost = false

theorem keeps_set {i : ℕ} {h : Handler} {stage : Stage} (hlost : stage.lost = false)
    (hset : t.handlers = s.handlers.set i { h with stage := stage }) : s.Keeps t := by
  intro j g hj hg
  rw [hset, List.getElem?_set]
  split_ifs with hij hlt
  · exact ⟨_, rfl, hlost⟩
  · subst hij
    exact absurd (List.getElem?_eq_some_iff.mp hj).1 hlt
  · exact ⟨g, hj, hg⟩

theorem own_keeps (ha : action.own = true) (he : s.exec config action = some t) : s.Keeps t := by
  cases action with
  | handler i event =>
    rcases Option.bind_eq_some_iff.mp he with ⟨h, -, hrest⟩
    cases event with
    | expire =>
      simp only [Exchange.handle] at hrest
      split at hrest
      case h_1 =>
        split_ifs at hrest
        cases hrest
        exact keeps_set (i := i) (h := h) rfl rfl
      case h_2 => cases hrest
    | proceed receiver =>
      rcases proceed_yields hrest with ⟨u, stage, hu, rfl, hlost⟩
      refine keeps_set (i := i) (h := h) hlost ?_
      rw [← hu.handlers]
      rfl
    | body | drop => cases ha
  | thread w event =>
    rcases Option.bind_eq_some_iff.mp he with ⟨thread, -, hrest⟩
    intro j g hj hg
    exact ⟨g, by rw [(work_produced hrest).1]; exact hj, hg⟩
  | tick =>
    cases he
    exact fun j g hj hg => ⟨g, hj, hg⟩
  | arrive | hire | disconnect => cases ha

end Own

end HyperRuby.Http
