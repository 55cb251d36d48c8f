import HyperRuby.Worker.NextItem
import HyperRuby.Http.Exchange
import HyperRuby.Dispatch.Credits

/-! # The whole server

Calls of `handle_request`, the syslog tasks and the threads of `run_worker` in one system. A
thread makes one channel operation of `next_work_item` after the other until it has a work item,
calls the block with it and answers on the oneshot that came with it. The two channels and the
threads are shared; all other parts take the steps of the side they belong to.
-/
namespace HyperRuby.Server
open Library

abbrev WorkItem := Worker.WorkItem Http.RequestWithCompletion Dispatch.SyslogDelivery

abbrev Seen := Worker.State Http.RequestWithCompletion Dispatch.SyslogDelivery

/-- The settings of a running server. Both channels are made with one capacity; a capacity of
zero, where a sender waits for a thread that is blocked, is left out. -/
structure Settings where
  http : Http.HandoffConfig
  syslog : Dispatch.Config
  workRatio : UInt32
  capacity : syslog.channelCapacity = http.channelCapacity
  capacityPos : 1 ≤ http.channelCapacity

def Settings.enabled (settings : Settings) : Bool :=
  decide (0 < settings.syslog.streamListeners) || settings.syslog.datagramListener

/-- Where a thread of `run_worker` stands: in the choice of its next work item, with a request it
has taken, or in the block with a request or a syslog message. -/
inductive Place where
  | choosing (stage : Worker.Stage)
  | holding (work : Http.RequestWithCompletion)
  | calling (work : Http.RequestWithCompletion)
  | delivering (delivery : Dispatch.SyslogDelivery)
  deriving DecidableEq, Repr

/-- A thread of `run_worker`. `taken` records its work items. -/
structure Thread where
  streak : UInt32
  place : Place
  taken : List WorkItem
  deriving DecidableEq, Repr

namespace Thread

/-- A thread at the head of its loop. -/
def next (settings : Settings) (th : Thread) : Thread :=
  { th with place := .choosing (.enter settings.workRatio th.streak) }

def start (settings : Settings) : Thread := next settings ⟨0, .choosing .ended, []⟩

def stop (th : Thread) : Thread := { th with place := .choosing .ended }

/-- The thread as the requests see it. Syslog messages pass unnoticed. -/
def http (th : Thread) : Http.Thread :=
  match th.place with
  | .choosing .ended => .ended
  | .choosing _ | .delivering _ => .idle
  | .holding work => .holding work
  | .calling work => .calling work

def syslog (th : Thread) : Option (Option Dispatch.SyslogDelivery) :=
  match th.place with
  | .choosing .ended => none
  | .choosing _ | .holding _ | .calling _ => some none
  | .delivering d => some (some d)

end Thread

/-- The server. `workClosed` and `syslogClosed` say that all senders of the channel are gone. -/
structure State where
  threads : List Thread
  handlers : List Http.Handler
  work : List Http.RequestWithCompletion
  workClosed : Bool
  workGone : Bool
  oneshots : List Http.Oneshot
  now : ℕ
  calls : List ℕ
  produced : List (ℕ × Http.HyperResponse)
  shared : Dispatch.Shared
  syslogClosed : Bool
  listeners : List Dispatch.Listener
  conns : List Dispatch.Conn
  receiver : Dispatch.Receiver
  tasks : List Dispatch.DatagramTask
  drain : Dispatch.Drain
  foreign : List ℕ
  swept : Multiset ℕ
  deriving DecidableEq

/-- What a thread does next, or what happens to it. The block returns a value that may be
truthy, or raises. -/
inductive ThreadEvent where
  | choose (select : Worker.Kind)
  | convert
  | returns (result : Http.BlockResult) (truthy : Bool)
  | quit
  deriving DecidableEq, Repr

inductive Action where
  | http (action : Http.Action)
  | syslog (action : Dispatch.Action)
  | hire
  | thread (w : ℕ) (event : ThreadEvent)
  | closeWork
  | closeSyslog
  | dropWork
  | dropSyslog
  deriving DecidableEq, Repr

/-- A call of `handle_request` that has ended, and with it its sender. -/
def finished (h : Http.Handler) : Bool :=
  match h.stage with
  | .returned _ _ | .failed | .dropped => true
  | _ => false

/-- `next_http_work_item`, on what the thread sees of the channels. -/
def chooseHttp (seen : Seen) : Option Seen :=
  if seen.stage = .ended then none
  else
    match Worker.nextHttpWorkItem seen.work with
    | none => none
    | some (none, work) => some { seen with work := work, stage := .ended }
    | some (some item, work) => some { seen with work := work, returned := seen.returned ++ [item] }

/-- The verdict of a call of the block. A response is none. -/
def callBlockWithSyslogMessage (result : Http.BlockResult) (truthy : Bool) :
    Dispatch.HandlerResult :=
  match result with
  | .grpcResponse _ | .response _ => .failed
  | .other => if truthy then .accepted else .refused
  | .raised => .failed

def placeOf : WorkItem → Place
  | .http work => .holding work
  | .syslog d => .delivering d

namespace State

def start (settings : Settings) : State where
  threads := []
  handlers := []
  work := []
  workClosed := false
  workGone := false
  oneshots := []
  now := 0
  calls := []
  produced := []
  shared := .start settings.syslog
  syslogClosed := false
  listeners := List.replicate settings.syslog.streamListeners .accepting
  conns := []
  receiver := if settings.syslog.datagramListener then .receiving else .stopped
  tasks := []
  drain := .idle
  foreign := []
  swept := 0

def http (s : State) : Http.Exchange :=
  ⟨s.handlers, s.work, s.threads.map Thread.http, s.oneshots, s.workGone, s.now, s.calls,
    s.produced⟩

def syslog (s : State) : Dispatch.System :=
  ⟨s.shared, s.listeners, s.conns, s.receiver, s.tasks, s.threads.filterMap Thread.syslog,
    s.drain, s.foreign, s.swept⟩

/-- What a step on the side of the requests leaves, but for the threads. -/
def withHttp (s : State) (e : Http.Exchange) : State :=
  { s with
    handlers := e.handlers, work := e.queue, workGone := e.disconnected, oneshots := e.oneshots
    now := e.now, calls := e.calls, produced := e.produced }

def withSyslog (s : State) (t : Dispatch.System) : State :=
  { s with
    shared := t.shared, listeners := t.listeners, conns := t.conns, receiver := t.receiver
    tasks := t.tasks, drain := t.drain, foreign := t.foreign, swept := t.swept }

def setThread (s : State) (w : ℕ) (th : Thread) : State :=
  { s with threads := s.threads.set w th }

/-- What a thread sees of the channels. -/
def seen (s : State) (th : Thread) (stage : Worker.Stage) : Seen :=
  ⟨⟨s.work, s.workClosed⟩, ⟨s.shared.queue, s.syslogClosed⟩, th.streak, stage, []⟩

/-- What a channel operation of a thread leaves: it goes on to choose, or has a work item. -/
def chosen (s : State) (w : ℕ) (th : Thread) (seen : Seen) : State :=
  { s with
    work := seen.work.queue
    shared := { s.shared with queue := seen.syslog.queue }
    threads := s.threads.set w ⟨seen.streak,
      (seen.returned.head?.map placeOf).getD (.choosing seen.stage), th.taken ++ seen.returned⟩ }

/-- One channel operation of `next_work_item`, or a call of `next_http_work_item`. -/
def choose (settings : Settings) (s : State) (w : ℕ) (th : Thread) (stage : Worker.Stage)
    (select : Worker.Kind) : Option State :=
  (if settings.enabled then (s.seen th stage).operate settings.workRatio select
    else chooseHttp (s.seen th stage)).map (s.chosen w th)

def respond (settings : Settings) (s : State) (w : ℕ) (th : Thread)
    (work : Http.RequestWithCompletion) (response : Http.HyperResponse) : State :=
  (s.withHttp (s.http.respond w work response)).setThread w (th.next settings)

/-- One step of a thread of `run_worker`. A thread that is torn down drops what it holds. -/
def runWorker (settings : Settings) (s : State) (w : ℕ) (th : Thread) :
    ThreadEvent → Option State
  | .choose select =>
    match th.place with
    | .choosing stage => s.choose settings w th stage select
    | _ => none
  | .convert =>
    match th.place with
    | .holding work =>
      match Http.toRuby work.request with
      | some _ =>
        some (setThread { s with calls := s.calls ++ [work.id] } w
          { th with place := .calling work })
      | none =>
        some (s.respond settings w th work
          (Http.grpcResponseError 3 "Invalid gRPC request path"))
    | _ => none
  | .returns result truthy =>
    match th.place with
    | .calling work => some (s.respond settings w th work result.toResponse)
    | .delivering d =>
      let verdict := callBlockWithSyslogMessage result truthy
      some (setThread { s with shared := s.shared.answer d (.send verdict) } w (th.next settings))
    | _ => none
  | .quit =>
    match th.place with
    | .choosing .ended => none
    | .choosing _ => some (s.setThread w th.stop)
    | .holding work | .calling work =>
      some ((s.withHttp (s.http.put work.responseTx .senderDropped)).setThread w th.stop)
    | .delivering d =>
      some (setThread { s with shared := s.shared.answer d .dropSender } w th.stop)

/-- The requests' own actions. Where the senders are gone, all calls have ended. -/
def admitsHttp (s : State) : Http.Action → Bool
  | .arrive _ _ | .handler _ _ => !s.workClosed
  | .tick => true
  | .hire | .thread _ _ | .disconnect => false

/-- The syslog tasks' own actions. Where the senders are gone, the tasks have ended. -/
def admitsSyslog (s : State) : Dispatch.Action → Bool
  | .listener _ _ | .reader _ _ | .delivery _ | .receiver _ | .task _ => !s.syslogClosed
  | .drain _ | .elsewhere => true
  | .worker _ => false

def exec (settings : Settings) (s : State) : Action → Option State
  | .http action =>
    if s.admitsHttp action then (s.http.exec settings.http action).map s.withHttp else none
  | .syslog action =>
    if s.admitsSyslog action then (s.syslog.exec settings.syslog action).map s.withSyslog
    else none
  | .hire =>
    if s.workGone || s.shared.receiversGone then none
    else some { s with threads := s.threads ++ [.start settings] }
  | .thread w event => (s.threads[w]?).bind (fun th => s.runWorker settings w th event)
  | .closeWork => if s.handlers.all finished then some { s with workClosed := true } else none
  | .closeSyslog => some { s with syslogClosed := true }
  | .dropWork => s.http.disconnect.map s.withHttp
  | .dropSyslog => (s.syslog.workerStep .dropReceivers).map s.withSyslog

abbrev Reachable (settings : Settings) : State → Prop :=
  Reached (exec settings) (fun _ _ => True) (start settings)

end State

section Runs

/-- A stream listener, and one message ahead of every request. -/
def Settings.shared : Settings := ⟨⟨30000, 5, 5⟩, .small, 1, rfl, Nat.le_add_left 1 4⟩

def requesting (i : ℕ) : List Action :=
  [.http (.arrive ⟨.get, Http.ascii "/", []⟩ none), .http (.handler i (.body (some []))),
    .http (.handler i (.proceed none))]

/-- A connection comes in, and its first message is pushed. -/
def messaging : List Action :=
  (Dispatch.serving [120, 10] 5).map .syslog ++ [.syslog (.delivery 0), .syslog (.delivery 0)]

end Runs
end HyperRuby.Server
