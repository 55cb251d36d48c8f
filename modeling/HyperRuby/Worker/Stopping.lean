import HyperRuby.Worker.NextItem

/-! # When a worker stops

A worker stops at the first call that gives it nothing. A worker without syslog stops when the
requests are closed and taken. One with syslog stops as soon as the channel it looks at is closed
and empty, whatever the other one holds; only when the syslog channel outlives the requests does
it take all of them.
-/
namespace HyperRuby.Worker
open Library

section Comparison
variable {Q D : Type*} {ratio : UInt32}

/-- A worker that looks at the requests only. -/
structure HttpState (Q D : Type*) where
  work : Channel Q
  returned : List (WorkItem Q D)
  ended : Bool
  deriving DecidableEq, Repr

/-- A call of that worker is one step: whether it waits first makes no difference to it. -/
def HttpState.exec (s : HttpState Q D) : Action Q D → Option (HttpState Q D)
  | .operate _ =>
    if s.ended then none
    else
      match nextHttpWorkItem s.work with
      | none => none
      | some (some item, work) =>
        some { s with work := work, returned := s.returned ++ [item] }
      | some (none, work) => some { s with work := work, ended := true }
  | .request q => some { s with work := { s.work with queue := s.work.queue ++ [q] } }
  | .takeRequest => some { s with work := { s.work with queue := s.work.queue.tail } }
  | .closeWork => some { s with work := { s.work with disconnected := true } }
  | .delivery _ | .takeDelivery | .closeSyslog => some s

def Action.sends : Action Q D → List (WorkItem Q D)
  | .request q => [.http q]
  | _ => []

/-- No syslog message arrives, nobody else takes work, and a closed channel has no senders. -/
def Quiet (work : Channel Q) : Action Q D → Prop
  | .operate _ | .closeWork | .closeSyslog => True
  | .request _ => work.disconnected = false
  | .delivery _ | .takeRequest | .takeDelivery => False

instance (work : Channel Q) (a : Action Q D) : Decidable (Quiet work a) :=
  match a with
  | .operate _ | .closeWork | .closeSyslog => isTrue trivial
  | .request _ => inferInstanceAs (Decidable (_ = _))
  | .delivery _ | .takeRequest | .takeDelivery => isFalse not_false

/-- The worker looks at a syslog channel that is closed and empty, with requests still to come
or to be taken. -/
def State.StopsEarly (s : State Q D) (select : Kind) : Prop :=
  (s.stage = .syslogFirst ∨ s.stage = .syslogLast ∨ (s.stage = .selecting ∧ select = .syslog)) ∧
    s.syslog.queue = [] ∧ s.syslog.disconnected = true ∧
    ¬ (s.work.queue = [] ∧ s.work.disconnected = true)

instance (s : State Q D) (select : Kind) : Decidable (s.StopsEarly select) :=
  inferInstanceAs (Decidable (_ ∧ _))

/-- A step of a quiet run at which the worker does not stop early. -/
def Patient (s : State Q D) (a : Action Q D) : Prop :=
  Quiet s.work a ∧
    match a with
    | .operate select => ¬ s.StopsEarly select
    | _ => True

instance (s : State Q D) (a : Action Q D) : Decidable (Patient s a) :=
  match a with
  | .operate _ => inferInstanceAs (Decidable (_ ∧ ¬ _))
  | .request _ | .delivery _ | .takeRequest | .takeDelivery | .closeWork | .closeSyslog =>
    inferInstanceAs (Decidable (_ ∧ True))

theorem Quiet.going {work : Channel Q} {q : Q} (h : Quiet work (.request q : Action Q D)) :
    ¬ (work.queue = [] ∧ work.disconnected = true) := by
  rintro ⟨-, hclosed⟩
  have hopen : work.disconnected = false := h
  rw [hclosed] at hopen
  cases hopen

theorem ended_syslog {s t : State Q D} {onward : Option (State Q D)}
    (h : (match trySyslogWorkItem s.syslog with
      | (.empty, _) => onward
      | (found, syslog) => some (State.finish ratio { s with syslog := syslog } found)) = some t)
    (hended : t.stage = .ended) :
    onward = some t ∨ (s.syslog.queue = [] ∧ s.syslog.disconnected = true) := by
  rw [trySyslogWorkItem, Channel.tryRecv] at h
  cases hq : s.syslog.queue with
  | cons d rest =>
    rw [hq] at h
    cases h
    exact absurd hended (enter_ne_ended _ _)
  | nil =>
    cases hd : s.syslog.disconnected with
    | true => exact .inr ⟨rfl, rfl⟩
    | false =>
      rw [hq, hd] at h
      exact .inl h

theorem ended_http {s t : State Q D} {onward : Option (State Q D)}
    (h : (match tryHttpWorkItem s.work with
      | (.empty, _) => onward
      | (found, work) => some (State.finish ratio { s with work := work } found)) = some t)
    (hended : t.stage = .ended) :
    onward = some t ∨ (s.work.queue = [] ∧ s.work.disconnected = true) := by
  rw [tryHttpWorkItem, Channel.tryRecv] at h
  cases hq : s.work.queue with
  | cons q rest =>
    rw [hq] at h
    cases h
    exact absurd hended (enter_ne_ended _ _)
  | nil =>
    cases hd : s.work.disconnected with
    | true => exact .inr ⟨rfl, rfl⟩
    | false =>
      rw [hq, hd] at h
      exact .inl h

theorem closed_of_ended {s t : State Q D} {select : Kind} (h : s.operate ratio select = some t)
    (hended : t.stage = .ended) :
    (s.work.queue = [] ∧ s.work.disconnected = true) ∨
      ((s.stage = .syslogFirst ∨ s.stage = .syslogLast ∨
          (s.stage = .selecting ∧ select = .syslog)) ∧
        s.syslog.queue = [] ∧ s.syslog.disconnected = true) := by
  unfold State.operate at h
  split at h
  case h_1 pc =>
    rcases ended_syslog h hended with honward | hclosed
    · cases honward
      cases hended
    · exact .inr ⟨.inl pc, hclosed⟩
  case h_2 first pc =>
    rcases ended_http h hended with honward | hclosed
    · cases honward
      cases first <;> cases hended
    · exact .inl hclosed
  case h_3 pc =>
    rcases ended_syslog h hended with honward | hclosed
    · cases honward
      cases hended
    · exact .inr ⟨.inr (.inl pc), hclosed⟩
  case h_4 pc =>
    cases select with
    | http =>
      rcases ended_http h hended with honward | hclosed
      · cases honward
      · exact .inl hclosed
    | syslog =>
      rcases ended_syslog h hended with honward | hclosed
      · cases honward
      · exact .inr ⟨.inr (.inr ⟨pc, rfl⟩), hclosed⟩
  case h_5 => cases h

/-- No syslog message is queued, and a worker that has stopped has left no request behind. -/
structure Drained (s : State Q D) : Prop where
  silent : s.syslog.queue = []
  done : s.stage = .ended → s.work.queue = [] ∧ s.work.disconnected = true

/-- A patient step keeps the requests in order, those taken in front of those queued. -/
theorem Drained.exec {s t : State Q D} {a : Action Q D} (h : Drained s) (hok : Patient s a)
    (he : s.exec ratio a = some t) :
    Drained t ∧ t.returned ++ t.work.queue.map .http =
      (s.returned ++ s.work.queue.map .http) ++ a.sends := by
  obtain ⟨hquiet, hpatient⟩ := hok
  have hsilent := h.silent
  cases a with
  | operate select =>
    have hdone : t.stage = .ended → s.work.queue = [] ∧ s.work.disconnected = true := by
      intro hended
      rcases closed_of_ended he hended with hclosed | ⟨hlooks, hempty, hclosed⟩
      · exact hclosed
      · by_contra hmore
        exact hpatient ⟨hlooks, hempty, hclosed, hmore⟩
    cases operate_operated he with
    | delivery d rest front pc => simp [hsilent] at front
    | request q rest front pc =>
      refine ⟨⟨hsilent, fun hended => absurd hended (enter_ne_ended _ _)⟩, ?_⟩
      simp [front, Action.sends]
    | noDelivery | noRequest | nothing | syslogClosed | workClosed =>
      exact ⟨⟨hsilent, hdone⟩, by simp [Action.sends]⟩
  | request q =>
    cases he
    exact ⟨⟨hsilent, fun hended => absurd (h.done hended) hquiet.going⟩, by simp [Action.sends]⟩
  | closeWork =>
    cases he
    exact ⟨⟨hsilent, fun hended => ⟨(h.done hended).1, rfl⟩⟩, by simp [Action.sends]⟩
  | closeSyslog =>
    cases he
    exact ⟨⟨hsilent, h.done⟩, by simp [Action.sends]⟩
  | delivery | takeRequest | takeDelivery => cases hquiet

theorem HttpState.drained {s t : HttpState Q D} {a : Action Q D}
    (h : s.ended = true → s.work.queue = [] ∧ s.work.disconnected = true)
    (hquiet : Quiet s.work a) (he : s.exec a = some t) :
    (t.ended = true → t.work.queue = [] ∧ t.work.disconnected = true) ∧
      t.returned ++ t.work.queue.map .http =
        (s.returned ++ s.work.queue.map .http) ++ a.sends := by
  cases a with
  | operate select =>
    rw [HttpState.exec] at he
    split_ifs at he with hended
    unfold nextHttpWorkItem tryHttpWorkItem Channel.tryRecv at he
    cases hq : s.work.queue with
    | cons q rest =>
      rw [hq] at he
      cases he
      exact ⟨fun ht => absurd ht hended, by simp [Action.sends]⟩
    | nil =>
      cases hd : s.work.disconnected with
      | true =>
        rw [hq, hd] at he
        cases he
        exact ⟨fun _ => ⟨hq, hd⟩, by simp [hq, Action.sends]⟩
      | false =>
        rw [hq, hd] at he
        cases he
  | request q =>
    cases he
    exact ⟨fun hended => absurd (h hended) hquiet.going, by simp [Action.sends]⟩
  | closeWork =>
    cases he
    exact ⟨fun hended => ⟨(h hended).1, rfl⟩, by simp [Action.sends]⟩
  | closeSyslog =>
    cases he
    exact ⟨h, by simp [Action.sends]⟩
  | delivery | takeRequest | takeDelivery => cases hquiet

theorem returned_all {streak : UInt32} {work : Channel Q} {closed : Bool}
    {actions : List (Action Q D)} {t : State Q D}
    (hrun : run (State.exec ratio) Patient (.start ratio streak work ⟨[], closed⟩) actions =
      some t) (hended : t.stage = .ended) :
    t.returned = work.queue.map .http ++ actions.flatMap Action.sends := by
  have hstart : Drained (State.start ratio streak work ⟨[], closed⟩ : State Q D) :=
    ⟨rfl, fun he => absurd he (enter_ne_ended _ _)⟩
  obtain ⟨hdrained, hsent⟩ := run_collect Drained (fun s => s.returned ++ s.work.queue.map .http)
    Action.sends (fun _ _ _ h hok he => h.exec hok he) hstart hrun
  rw [(hdrained.done hended).1] at hsent
  simpa [State.start] using hsent

theorem http_returned_all {work : Channel Q} {actions : List (Action Q D)} {t : HttpState Q D}
    (hrun : run HttpState.exec (fun s a => Quiet s.work a) ⟨work, [], false⟩ actions = some t)
    (hended : t.ended = true) :
    t.returned = work.queue.map .http ++ actions.flatMap Action.sends := by
  obtain ⟨hdone, hsent⟩ := run_collect
    (fun s : HttpState Q D => s.ended = true → s.work.queue = [] ∧ s.work.disconnected = true)
    (fun s => s.returned ++ s.work.queue.map .http) Action.sends
    (fun _ _ _ h hok he => HttpState.drained h hok he) (by simp) hrun
  rw [(hdone hended).1] at hsent
  simpa using hsent

end Comparison

/-- A call gives nothing with work queued exactly when the channel looked at first is closed and
empty and the other one is not empty. In runs where the worker never looks at a closed syslog
channel before the requests are done, and no message arrives, it takes the requests that
`next_http_work_item` takes. -/
theorem worker_stops_drained {Q D : Type*} (ratio : UInt32) :
    (∀ (select : Kind) (streak : UInt32) (work : Channel Q) (syslog : Channel D),
      (Stops (nextWorkItem ratio select streak work syslog) →
        work.queue = [] ∧ syslog.queue = []) ↔ ¬ LeavesWork ratio streak work syslog) ∧
    ∀ (streak : UInt32) (work : Channel Q) (closed : Bool) (actions actions' : List (Action Q D))
      (t : State Q D) (t' : HttpState Q D),
      actions.flatMap Action.sends = actions'.flatMap Action.sends →
      run (State.exec ratio) Patient (.start ratio streak work ⟨[], closed⟩) actions = some t →
      run HttpState.exec (fun s a => Quiet s.work a) ⟨work, [], false⟩ actions' = some t' →
      t.stage = .ended → t'.ended = true → t.returned = t'.returned := by
  refine ⟨fun _ _ _ _ => stops_drained, ?_⟩
  intro streak work closed actions actions' t t' hsame hrun hrun' hended hended'
  rw [returned_all hrun hended, http_returned_all hrun' hended', hsame]

theorem worker_stops_drained_in_order :
    let t : State ℕ ℕ := ⟨⟨[], true⟩, ⟨[], true⟩, 0, .ended, [.http 7]⟩
    let t' : HttpState ℕ ℕ := ⟨⟨[], true⟩, [.http 7], true⟩
    run (State.exec 1) Patient (.start 1 0 ⟨[7], false⟩ ⟨[], false⟩)
        [.operate .http, .operate .http, .closeWork, .closeSyslog, .operate .http] = some t ∧
      t.returned = t'.returned :=
  ⟨by decide, (worker_stops_drained 1).2 0 ⟨[7], false⟩ false
    [.operate .http, .operate .http, .closeWork, .closeSyslog, .operate .http]
    [.operate .http, .closeWork, .operate .http] _ _ (by decide) (by decide) (by decide) rfl rfl⟩

/-- The syslog channel is closed first: the worker stops with a request queued, which a worker
that looks at the requests only takes. -/
theorem worker_stops_with_request :
    nextWorkItem 1 .http 0 (⟨[7], false⟩ : Channel ℕ) (⟨[], true⟩ : Channel ℕ) =
        some ((none, 0), ⟨[7], false⟩, ⟨[], true⟩) ∧
      (run (State.exec 1) (fun s a => Quiet s.work a)
          (.start 1 0 ⟨[7], false⟩ ⟨[], true⟩ : State ℕ ℕ)
          [.operate .http, .closeWork]).map (fun t => (t.stage, t.returned)) =
        some (.ended, []) ∧
      (run HttpState.exec (fun s a => Quiet s.work a) (⟨⟨[7], false⟩, [], false⟩ : HttpState ℕ ℕ)
          [.operate .http, .closeWork, .operate .http]).map (fun t => (t.ended, t.returned)) =
        some (true, [.http 7]) := by
  decide

end HyperRuby.Worker
