import HyperRuby.Library.Transition

/-! # How a worker chooses between requests and syslog messages

`next_work_item` tries the two channels in an order that depends on the streak of syslog
messages, and waits on both when it finds them empty. Each channel operation is one step;
other tasks fill, empty and close the channels between any two of them. The streak and the
ratio are `u32`, and the streak wraps.
-/
namespace HyperRuby.Worker
open Library

/-- What is left in a channel, and whether all its senders are gone. -/
structure Channel (α : Type*) where
  queue : List α
  disconnected : Bool
  deriving DecidableEq, Repr

inductive WorkItem (Q D : Type*) where
  | http (request : Q)
  | syslog (delivery : D)
  deriving DecidableEq, Repr

inductive TryWork (Q D : Type*) where
  | found (item : WorkItem Q D)
  | empty
  | closed
  deriving DecidableEq, Repr

inductive Kind where
  | http
  | syslog
  deriving DecidableEq, Repr

section Items
variable {Q D : Type*}

def WorkItem.kind : WorkItem Q D → Kind
  | .http _ => .http
  | .syslog _ => .syslog

/-- `try_recv`, with the item told apart by its channel. -/
def Channel.tryRecv {α : Type*} (item : α → WorkItem Q D) (channel : Channel α) :
    TryWork Q D × Channel α :=
  match channel.queue with
  | x :: queue => (.found (item x), { channel with queue := queue })
  | [] => (if channel.disconnected then .closed else .empty, channel)

def tryHttpWorkItem (work : Channel Q) : TryWork Q D × Channel Q := work.tryRecv .http

def trySyslogWorkItem (syslog : Channel D) : TryWork Q D × Channel D := syslog.tryRecv .syslog

/-- The item of an outcome and the streak behind it; a closed channel gives no item. -/
def countWorkItem (outcome : TryWork Q D) (streak : UInt32) : Option (WorkItem Q D) × UInt32 :=
  match outcome with
  | .found (.syslog d) => (some (.syslog d), streak + 1)
  | .found (.http q) => (some (.http q), 0)
  | .empty | .closed => (none, streak)

end Items

/-- Where a call of `next_work_item` stands. After a call that gave nothing the worker ends. -/
inductive Stage where
  | syslogFirst
  | http (syslogFirst : Bool)
  | syslogLast
  | selecting
  | ended
  deriving DecidableEq, Repr

/-- The beginning of a call. -/
def Stage.enter (ratio streak : UInt32) : Stage :=
  if streak < ratio then .syslogFirst else .http false

theorem enter_ne_ended (ratio streak : UInt32) : Stage.enter ratio streak ≠ .ended := by
  unfold Stage.enter
  split_ifs <;> simp

/-- One worker and its channels. `returned` records what its calls have returned. -/
structure State (Q D : Type*) where
  work : Channel Q
  syslog : Channel D
  streak : UInt32
  stage : Stage
  returned : List (WorkItem Q D)
  deriving DecidableEq, Repr

inductive Action (Q D : Type*) where
  | operate (select : Kind)
  | request (request : Q)
  | delivery (delivery : D)
  | takeRequest
  | takeDelivery
  | closeWork
  | closeSyslog
  deriving DecidableEq, Repr

def Action.operates {Q D : Type*} : Action Q D → Bool
  | .operate _ => true
  | .request _ | .delivery _ | .takeRequest | .takeDelivery | .closeWork | .closeSyslog => false

namespace State
variable {Q D : Type*}

def start (ratio streak : UInt32) (work : Channel Q) (syslog : Channel D) : State Q D :=
  ⟨work, syslog, streak, .enter ratio streak, []⟩

/-- The end of a call, and the beginning of the next one. -/
def finish (ratio : UInt32) (s : State Q D) (outcome : TryWork Q D) : State Q D :=
  match countWorkItem outcome s.streak with
  | (some item, streak) =>
    { s with streak := streak, stage := .enter ratio streak, returned := s.returned ++ [item] }
  | (none, streak) => { s with streak := streak, stage := .ended }

/-- One channel operation of the worker. A `select!` takes one of the channels that are ready,
and waits if none is. -/
def operate (ratio : UInt32) (s : State Q D) (select : Kind) : Option (State Q D) :=
  match s.stage with
  | .syslogFirst =>
    match trySyslogWorkItem s.syslog with
    | (.empty, _) => some { s with stage := .http true }
    | (outcome, syslog) => some (finish ratio { s with syslog := syslog } outcome)
  | .http syslogFirst =>
    match tryHttpWorkItem s.work with
    | (.empty, _) => some { s with stage := if syslogFirst then .selecting else .syslogLast }
    | (outcome, work) => some (finish ratio { s with work := work } outcome)
  | .syslogLast =>
    match trySyslogWorkItem s.syslog with
    | (.empty, _) => some { s with stage := .selecting }
    | (outcome, syslog) => some (finish ratio { s with syslog := syslog } outcome)
  | .selecting =>
    match select with
    | .http =>
      match tryHttpWorkItem s.work with
      | (.empty, _) => none
      | (outcome, work) => some (finish ratio { s with work := work } outcome)
    | .syslog =>
      match trySyslogWorkItem s.syslog with
      | (.empty, _) => none
      | (outcome, syslog) => some (finish ratio { s with syslog := syslog } outcome)
  | .ended => none

def exec (ratio : UInt32) (s : State Q D) : Action Q D → Option (State Q D)
  | .operate select => s.operate ratio select
  | .request q => some { s with work := { s.work with queue := s.work.queue ++ [q] } }
  | .delivery d => some { s with syslog := { s.syslog with queue := s.syslog.queue ++ [d] } }
  | .takeRequest => some { s with work := { s.work with queue := s.work.queue.tail } }
  | .takeDelivery => some { s with syslog := { s.syslog with queue := s.syslog.queue.tail } }
  | .closeWork => some { s with work := { s.work with disconnected := true } }
  | .closeSyslog => some { s with syslog := { s.syslog with disconnected := true } }

end State

section Steps
variable {Q D : Type*} {ratio : UInt32} {s t : State Q D}

/-- Everything a channel operation can do: give the front of a channel, find one empty and go
on, or end the worker. -/
inductive Operated (ratio : UInt32) (s : State Q D) : State Q D → Prop where
  | delivery (d : D) (rest : List D) (front : s.syslog.queue = d :: rest)
      (pc : s.stage = .syslogFirst ∨ s.stage = .syslogLast ∨ s.stage = .selecting) :
      Operated ratio s
        { s with
          syslog := { s.syslog with queue := rest }, streak := s.streak + 1
          stage := .enter ratio (s.streak + 1), returned := s.returned ++ [.syslog d] }
  | request (q : Q) (rest : List Q) (front : s.work.queue = q :: rest)
      (pc : (∃ first, s.stage = .http first) ∨ s.stage = .selecting) :
      Operated ratio s
        { s with
          work := { s.work with queue := rest }, streak := 0
          stage := .enter ratio 0, returned := s.returned ++ [.http q] }
  | noDelivery (empty : s.syslog.queue = []) (pc : s.stage = .syslogFirst) :
      Operated ratio s { s with stage := .http true }
  | noRequest (first : Bool) (empty : s.work.queue = []) (pc : s.stage = .http first) :
      Operated ratio s { s with stage := if first then .selecting else .syslogLast }
  | nothing (empty : s.syslog.queue = []) (pc : s.stage = .syslogLast) :
      Operated ratio s { s with stage := .selecting }
  | syslogClosed (empty : s.syslog.queue = [])
      (pc : s.stage = .syslogFirst ∨ s.stage = .syslogLast ∨ s.stage = .selecting) :
      Operated ratio s { s with stage := .ended }
  | workClosed (empty : s.work.queue = [])
      (pc : (∃ first, s.stage = .http first) ∨ s.stage = .selecting) :
      Operated ratio s { s with stage := .ended }

theorem tryRecv_cases {α : Type*} (item : α → WorkItem Q D) (channel : Channel α) :
    (∃ x rest, channel.queue = x :: rest ∧
        channel.tryRecv item = (.found (item x), { channel with queue := rest })) ∨
      (channel.queue = [] ∧
        (channel.tryRecv item = (.empty, channel) ∨
          channel.tryRecv item = (.closed, channel))) := by
  unfold Channel.tryRecv
  cases hq : channel.queue with
  | nil =>
    right
    cases channel.disconnected <;> simp
  | cons x rest => exact .inl ⟨x, rest, rfl, rfl⟩

theorem operate_syslog {outcome : Option (State Q D)}
    (pc : s.stage = .syslogFirst ∨ s.stage = .syslogLast ∨ s.stage = .selecting)
    (h : (match trySyslogWorkItem s.syslog with
      | (.empty, _) => outcome
      | (found, syslog) => some (State.finish ratio { s with syslog := syslog } found)) = some t) :
    Operated ratio s t ∨ (s.syslog.queue = [] ∧ outcome = some t) := by
  rw [trySyslogWorkItem] at h
  rcases tryRecv_cases .syslog s.syslog with ⟨d, rest, hqueue, hrecv⟩ | ⟨hqueue, hrecv | hrecv⟩
  · rw [hrecv] at h
    cases h
    exact .inl (.delivery d rest hqueue pc)
  · rw [hrecv] at h
    exact .inr ⟨hqueue, h⟩
  · rw [hrecv] at h
    cases h
    exact .inl (.syslogClosed hqueue pc)

theorem operate_http {outcome : Option (State Q D)}
    (pc : (∃ first, s.stage = .http first) ∨ s.stage = .selecting)
    (h : (match tryHttpWorkItem s.work with
      | (.empty, _) => outcome
      | (found, work) => some (State.finish ratio { s with work := work } found)) = some t) :
    Operated ratio s t ∨ (s.work.queue = [] ∧ outcome = some t) := by
  rw [tryHttpWorkItem] at h
  rcases tryRecv_cases .http s.work with ⟨q, rest, hqueue, hrecv⟩ | ⟨hqueue, hrecv | hrecv⟩
  · rw [hrecv] at h
    cases h
    exact .inl (.request q rest hqueue pc)
  · rw [hrecv] at h
    exact .inr ⟨hqueue, h⟩
  · rw [hrecv] at h
    cases h
    exact .inl (.workClosed hqueue pc)

theorem operate_operated {select : Kind} (h : s.operate ratio select = some t) :
    Operated ratio s t := by
  unfold State.operate at h
  split at h
  case h_1 pc =>
    rcases operate_syslog (.inl pc) h with hstep | ⟨hempty, hout⟩
    · exact hstep
    · cases hout
      exact .noDelivery hempty pc
  case h_2 first pc =>
    rcases operate_http (.inl ⟨first, pc⟩) h with hstep | ⟨hempty, hout⟩
    · exact hstep
    · cases hout
      exact .noRequest first hempty pc
  case h_3 pc =>
    rcases operate_syslog (.inr (.inl pc)) h with hstep | ⟨hempty, hout⟩
    · exact hstep
    · cases hout
      exact .nothing hempty pc
  case h_4 pc =>
    cases select with
    | http =>
      rcases operate_http (.inr pc) h with hstep | ⟨-, hout⟩
      · exact hstep
      · cases hout
    | syslog =>
      rcases operate_syslog (.inr (.inr pc)) h with hstep | ⟨-, hout⟩
      · exact hstep
      · cases hout
  case h_5 => cases h

/-- What the others do to the channels leaves the worker where it is. -/
theorem exec_cases {a : Action Q D} (h : s.exec ratio a = some t) :
    (∃ select, a = .operate select ∧ Operated ratio s t) ∨
      (a.operates = false ∧ ∃ work syslog, t = { s with work := work, syslog := syslog }) := by
  cases a with
  | operate select => exact .inl ⟨select, rfl, operate_operated h⟩
  | request | delivery | takeRequest | takeDelivery | closeWork | closeSyslog =>
    cases h
    exact .inr ⟨rfl, _, _, rfl⟩

/-- A property of the worker alone that its own operations keep holds in every state reached. -/
theorem worker_invariant {guard : State Q D → Prop} {init : State Q D}
    (inv : UInt32 → Stage → List (WorkItem Q D) → Prop)
    (h0 : inv init.streak init.stage init.returned)
    (hstep : ∀ s t, guard s → Operated ratio s t → inv s.streak s.stage s.returned →
      inv t.streak t.stage t.returned)
    (h : Reached (State.exec ratio) (fun s a => ∀ k, a = .operate k → guard s) init s) :
    inv s.streak s.stage s.returned := by
  refine h.invariant (fun s => inv s.streak s.stage s.returned) h0 ?_
  intro s a t _ ok ih he
  rcases exec_cases he with ⟨select, rfl, hoperated⟩ | ⟨-, work, syslog, rfl⟩
  · exact hstep s t (ok select rfl) hoperated ih
  · exact ih

end Steps

end HyperRuby.Worker
