import HyperRuby.Server.Machine

/-! # Connections and the shutdown

The HTTP accept loop of `start`, its connections and `stop` around the whole server. Without a
`max_connection_age` a connection is watched by the graceful shutdown, which the server task
waits for, up to ten seconds; with one it has a task of its own, which nobody waits for. `stop`
waits for the server task, drains the syslog listeners, and drops the runtime with all tasks
that are left.
-/
namespace HyperRuby.Server
open Library

/-- The server task. An accept that fails does not match the pattern of its branch, and the
`select!` goes on to wait for the shutdown alone. -/
inductive AcceptLoop where
  | accepting
  | deaf
  | draining (since : ℕ)
  | ended (timedOut : Bool)
  deriving DecidableEq, Repr

structure Connection where
  watched : Bool
  closed : Bool
  deriving DecidableEq, Repr

/-- Where a call of `stop` stands. -/
inductive Stop where
  | running
  | joining
  | draining
  | dropping
  | returned
  deriving DecidableEq, Repr

/-- The server with its connections. `owners` has the connection of every call of
`handle_request`, and `cut` records the calls that were dropped with the runtime. -/
structure Process where
  server : State
  loop : AcceptLoop
  connections : List Connection
  owners : List ℕ
  signalled : Bool
  stop : Stop
  cut : List ℕ
  deriving DecidableEq

inductive Move where
  | server (action : Action)
  | accept
  | acceptFails
  | notice
  | drained
  | expire
  | request (c : ℕ) (parts : Http.Parts) (declaredLen : Option ℕ)
  | leave (i : ℕ)
  | close (c : ℕ)
  | stop
  | join
  | drain (move : Dispatch.DrainMove)
  | finish
  | cutOff (i : ℕ)
  deriving DecidableEq, Repr

/-- The time the server task waits for watched connections. -/
def closeTimeout : ℕ := 10000

/-- What happens while a Ruby thread keeps the GVL: the tasks go on, and a thread of `run_worker`
that waits on the channels without the GVL may get an item, but does not go on with it. -/
def Action.withoutGvl : Action → Bool
  | .http _ | .syslog _ | .thread _ (.choose _) | .closeWork | .closeSyslog => true
  | .hire | .thread _ _ | .dropWork | .dropSyslog => false

namespace Process

def start (settings : Settings) : Process :=
  ⟨.start settings, .accepting, [], [], false, .running, []⟩

/-- What the parts of the server do by themselves. The tasks go on until the runtime is dropped,
and the senders are gone when they are. `stop` waits for the server task with the GVL held. -/
def admits (p : Process) (action : Action) : Bool :=
  (p.stop ≠ .joining || action.withoutGvl) &&
    match action with
    | .http (.handler _ .drop) | .http (.arrive _ _) | .syslog (.drain _) => false
    | .http .tick | .syslog .elsewhere => true
    | .http _ | .syslog _ => p.stop ≠ .returned
    | .hire | .thread _ _ | .dropWork | .dropSyslog => true
    | .closeWork | .closeSyslog => p.stop = .returned

theorem admits_ne_arrive {p : Process} {action : Action} (h : p.admits action = true)
    (parts : Http.Parts) (declaredLen : Option ℕ) :
    action ≠ .http (.arrive parts declaredLen) := by
  rintro rfl
  simp [admits] at h

theorem admits_ne_drop {p : Process} {action : Action} (h : p.admits action = true) (i : ℕ) :
    action ≠ .http (.handler i .drop) := by
  rintro rfl
  simp [admits] at h

theorem admits_withoutGvl {p : Process} {action : Action} (h : p.admits action = true)
    (hstop : p.stop = .joining) : action.withoutGvl = true := by
  simp only [admits, Bool.and_eq_true] at h
  simpa [hstop] using h.1

/-- All calls of a connection have ended. -/
def Served (p : Process) (c : ℕ) : Prop :=
  ∀ i < p.owners.length, p.owners[i]? = some c → (p.server.handlers[i]?).all finished = true

instance (p : Process) (c : ℕ) : Decidable (p.Served c) :=
  inferInstanceAs (Decidable (∀ i < _, _))

def serverStep (settings : Settings) (p : Process) (action : Action)
    (change : Process → Process) : Option Process :=
  (p.server.exec settings action).map (fun s => change { p with server := s })

/-- One step of the process. `complete`, `timeout`, `swap` and `abandon` are those of
`SyslogRuntime::drain`; a server without syslog listeners has none. -/
def exec (settings : Settings) (maxAge : Option ℕ) (p : Process) : Move → Option Process
  | .server action => if p.admits action then p.serverStep settings action id else none
  | .accept =>
    if p.loop = .accepting then
      some { p with connections := p.connections ++ [⟨maxAge.isNone, false⟩] }
    else none
  | .acceptFails => if p.loop = .accepting then some { p with loop := .deaf } else none
  | .notice =>
    if p.signalled ∧ (p.loop = .accepting ∨ p.loop = .deaf) then
      some { p with loop := .draining p.server.now }
    else none
  | .drained =>
    match p.loop with
    | .draining _ =>
      if p.connections.all (fun c => !c.watched || c.closed) then
        some { p with loop := .ended false }
      else none
    | _ => none
  | .expire =>
    match p.loop with
    | .draining since =>
      if since + closeTimeout ≤ p.server.now then some { p with loop := .ended true } else none
    | _ => none
  | .request c parts declaredLen =>
    if (p.connections[c]?).any (fun c => !c.closed) ∧ p.stop ≠ .returned then
      p.serverStep settings (.http (.arrive parts declaredLen))
        (fun p => { p with owners := p.owners ++ [c] })
    else none
  | .leave i =>
    if p.stop ≠ .returned then p.serverStep settings (.http (.handler i .drop)) id else none
  | .close c =>
    if p.Served c then
      some { p with
        connections := p.connections.modify c (fun c => { c with closed := true }) }
    else none
  | .stop =>
    if p.stop = .running then
      p.serverStep settings (.syslog (.drain .stopAccepting))
        (fun p => { p with signalled := true, stop := .joining })
    else none
  | .join =>
    match p.loop with
    | .ended _ =>
      if p.stop = .joining then
        if settings.enabled then
          p.serverStep settings (.syslog (.drain .wait)) (fun p => { p with stop := .draining })
        else some { p with stop := .dropping }
      else none
    | _ => none
  | .drain move =>
    if p.stop = .draining ∧ move ≠ .stopAccepting ∧ move ≠ .wait then
      p.serverStep settings (.syslog (.drain move)) id
    else none
  | .finish =>
    if p.stop = .dropping ∨
        (p.stop = .draining ∧ (p.server.drain = .completed ∨ p.server.drain = .timedOut)) then
      some { p with stop := .returned }
    else none
  | .cutOff i =>
    if p.stop = .returned then
      p.serverStep settings (.http (.handler i .drop)) (fun p => { p with cut := p.cut ++ [i] })
    else none

abbrev Reachable (settings : Settings) (maxAge : Option ℕ) : Process → Prop :=
  Reached (exec settings maxAge) (fun _ _ => True) (start settings)

end Process

section Steps
variable {settings : Settings} {maxAge : Option ℕ} {p q : Process}

/-- What one move of the process can do. -/
inductive ProcessStep (settings : Settings) (maxAge : Option ℕ) (p : Process) :
    Move → Process → Prop where
  | server (action : Action) (s : State) (admitted : p.admits action = true)
      (step : p.server.exec settings action = some s) :
      ProcessStep settings maxAge p (.server action) { p with server := s }
  | accept (accepting : p.loop = .accepting) :
      ProcessStep settings maxAge p .accept
        { p with connections := p.connections ++ [⟨maxAge.isNone, false⟩] }
  | acceptFails (accepting : p.loop = .accepting) :
      ProcessStep settings maxAge p .acceptFails { p with loop := .deaf }
  | notice (signalled : p.signalled = true) (going : p.loop = .accepting ∨ p.loop = .deaf) :
      ProcessStep settings maxAge p .notice { p with loop := .draining p.server.now }
  | drained (since : ℕ) (draining : p.loop = .draining since)
      (closed : ∀ conn ∈ p.connections, conn.watched = true → conn.closed = true) :
      ProcessStep settings maxAge p .drained { p with loop := .ended false }
  | expire (since : ℕ) (draining : p.loop = .draining since)
      (past : since + closeTimeout ≤ p.server.now) :
      ProcessStep settings maxAge p .expire { p with loop := .ended true }
  | request (c : ℕ) (conn : Connection) (parts : Http.Parts) (declaredLen : Option ℕ) (s : State)
      (hget : p.connections[c]? = some conn) (opened : conn.closed = false)
      (step : p.server.exec settings (.http (.arrive parts declaredLen)) = some s) :
      ProcessStep settings maxAge p (.request c parts declaredLen)
        { p with server := s, owners := p.owners ++ [c] }
  | leave (i : ℕ) (s : State) (step : p.server.exec settings (.http (.handler i .drop)) = some s) :
      ProcessStep settings maxAge p (.leave i) { p with server := s }
  | close (c : ℕ) (served : p.Served c) :
      ProcessStep settings maxAge p (.close c) { p with
        connections := p.connections.modify c (fun c => { c with closed := true }) }
  | stop (s : State) (running : p.stop = .running)
      (step : p.server.exec settings (.syslog (.drain .stopAccepting)) = some s) :
      ProcessStep settings maxAge p .stop
        { p with server := s, signalled := true, stop := .joining }
  | joinDraining (timedOut : Bool) (s : State) (ended : p.loop = .ended timedOut)
      (joining : p.stop = .joining)
      (step : p.server.exec settings (.syslog (.drain .wait)) = some s) :
      ProcessStep settings maxAge p .join { p with server := s, stop := .draining }
  | joinDropping (timedOut : Bool) (ended : p.loop = .ended timedOut)
      (joining : p.stop = .joining) :
      ProcessStep settings maxAge p .join { p with stop := .dropping }
  | drain (move : Dispatch.DrainMove) (s : State) (draining : p.stop = .draining)
      (step : p.server.exec settings (.syslog (.drain move)) = some s) :
      ProcessStep settings maxAge p (.drain move) { p with server := s }
  | finish (past : p.stop = .dropping ∨ p.stop = .draining) :
      ProcessStep settings maxAge p .finish { p with stop := .returned }
  | cutOff (i : ℕ) (s : State) (returned : p.stop = .returned)
      (step : p.server.exec settings (.http (.handler i .drop)) = some s) :
      ProcessStep settings maxAge p (.cutOff i) { p with server := s, cut := p.cut ++ [i] }

theorem serverStep_eq {action : Action} {change : Process → Process}
    (he : p.serverStep settings action change = some q) :
    ∃ s, p.server.exec settings action = some s ∧ change { p with server := s } = q :=
  Option.map_eq_some_iff.mp he

theorem exec_move {move : Move} (he : p.exec settings maxAge move = some q) :
    ProcessStep settings maxAge p move q := by
  cases move with
  | server action =>
    simp only [Process.exec] at he
    split_ifs at he with hadmits
    obtain ⟨s, hs, rfl⟩ := serverStep_eq he
    exact .server action s hadmits hs
  | accept =>
    simp only [Process.exec] at he
    split_ifs at he with hloop
    cases he
    exact .accept hloop
  | acceptFails =>
    simp only [Process.exec] at he
    split_ifs at he with hloop
    cases he
    exact .acceptFails hloop
  | notice =>
    simp only [Process.exec] at he
    split_ifs at he with hnotice
    cases he
    exact .notice hnotice.1 hnotice.2
  | drained =>
    simp only [Process.exec] at he
    split at he
    · rename_i since hloop
      split_ifs at he with hall
      cases he
      refine .drained since hloop fun conn hconn hwatched => ?_
      have hdone := List.all_eq_true.mp hall conn hconn
      simpa [hwatched] using hdone
    · cases he
  | expire =>
    simp only [Process.exec] at he
    split at he
    · rename_i since hloop
      split_ifs at he with hpast
      cases he
      exact .expire since hloop hpast
    · cases he
  | request c parts declaredLen =>
    simp only [Process.exec] at he
    split_ifs at he with hopen
    rcases Option.any_eq_true_iff_get _ _ |>.mp hopen.1 with ⟨hsome, hclosed⟩
    obtain ⟨s, hs, rfl⟩ := serverStep_eq he
    exact .request c _ parts declaredLen s (Option.some_get hsome).symm (by simpa using hclosed) hs
  | leave i =>
    simp only [Process.exec] at he
    split_ifs at he
    obtain ⟨s, hs, rfl⟩ := serverStep_eq he
    exact .leave i s hs
  | close c =>
    simp only [Process.exec] at he
    split_ifs at he with hserved
    cases he
    exact .close c hserved
  | stop =>
    simp only [Process.exec] at he
    split_ifs at he with hrunning
    obtain ⟨s, hs, rfl⟩ := serverStep_eq he
    exact .stop s hrunning hs
  | join =>
    simp only [Process.exec] at he
    split at he
    · rename_i timedOut hloop
      split_ifs at he with hjoining
      · obtain ⟨s, hs, rfl⟩ := serverStep_eq he
        exact .joinDraining timedOut s hloop hjoining hs
      · cases he
        exact .joinDropping timedOut hloop hjoining
    · cases he
  | drain move =>
    simp only [Process.exec] at he
    split_ifs at he with hdraining
    obtain ⟨s, hs, rfl⟩ := serverStep_eq he
    exact .drain move s hdraining.1 hs
  | finish =>
    simp only [Process.exec] at he
    split_ifs at he with hpast
    cases he
    exact .finish (hpast.imp_right And.left)
  | cutOff i =>
    simp only [Process.exec] at he
    split_ifs at he with hreturned
    obtain ⟨s, hs, rfl⟩ := serverStep_eq he
    exact .cutOff i s hreturned hs

/-- Every step of the process is a step of the server, or leaves it as it is. -/
theorem exec_server {move : Move} (he : p.exec settings maxAge move = some q) :
    Reached (State.exec settings) (fun _ _ => True) p.server q.server := by
  cases exec_move he with
  | server _ _ _ step | request _ _ _ _ _ _ _ step | leave _ _ step | stop _ _ step
  | joinDraining _ _ _ _ step | drain _ _ _ step | cutOff _ _ _ step =>
    exact .step .start trivial step
  | accept | acceptFails | notice | drained | expire | close | joinDropping | finish =>
    exact .start

theorem exec_stopping {move : Move} (he : p.exec settings maxAge move = some q)
    (hstop : p.stop ≠ .running) : q.stop ≠ .running := by
  cases exec_move he with
  | stop | joinDraining | joinDropping | finish => simp
  | server | accept | acceptFails | notice | drained | expire | request | leave | close | drain
  | cutOff => exact hstop

/-- What holds in all runs of the server holds in it while it is stopped. -/
theorem process_refines (h : p.Reachable settings maxAge) : p.server.Reachable settings :=
  h.view Process.server fun _ _ _ he => exec_server he

end Steps
end HyperRuby.Server
