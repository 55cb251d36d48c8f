import HyperRuby.Library.Transition
import HyperRuby.Library.Ledger
import HyperRuby.Dispatch.Connection

/-! # The running listeners

Accept loops, stream connections, the datagram listener with its tasks, the
workers and the shutdown drain, interleaved in any order. An action names the
component that takes the next step and what reaches it from outside.
-/
namespace HyperRuby.Dispatch
open Framing Library

/-- The accept loop of a stream listener. -/
inductive Listener where
  | accepting
  | counted (peer : Option String) (before : ℕ)
  | refusing
  | refused
  | opening (peer : Option String)
  | spawning (peer : Option String)
  | stopped
  deriving DecidableEq, Repr

/-- The loop of `serve_datagrams`. -/
inductive Receiver where
  | receiving
  | truncated
  | crediting (message : Bytes) (peer : Option String) (receivedAtNs : ℕ)
  | uncredited
  | numbering (message : Bytes) (peer : Option String) (receivedAtNs : ℕ)
  | gauging (pending : PendingMessage)
  | spawning (pending : PendingMessage)
  | stopped
  deriving DecidableEq, Repr

inductive DatagramStage where
  | delivering (stage : Deliver)
  | dropping
  | releasing
  | freeing
  | finished
  deriving DecidableEq, Repr

/-- The task spawned for one datagram. -/
structure DatagramTask where
  pending : PendingMessage
  stage : DatagramStage
  deriving DecidableEq, Repr

/-- `SyslogRuntime::drain`: giving up the wait, the swap of the gauge and the addition are three
operations. -/
inductive Drain where
  | idle
  | waiting
  | completed
  | expired
  | swapped (abandoned : ℕ)
  | timedOut
  deriving DecidableEq, Repr

namespace DatagramTask

def resume (task : DatagramTask) : Progress → DatagramTask
  | .full => { task with stage := .delivering .pushing }
  | .pushed d => { task with stage := .delivering (.awaiting d.resultTx) }
  | .answered result => { task with stage := .delivering (.counting result) }
  | .ended .accepted => { task with stage := .releasing }
  | .ended _ => { task with stage := .dropping }

def step (config : Config) (sh : Shared) (task : DatagramTask) : Option (Shared × DatagramTask) :=
  match task.stage with
  | .delivering stage =>
    (deliver config sh task.pending 1 stage).map (fun out => (out.1, task.resume out.2))
  | .dropping =>
    some (sh.count (fun c => { c with udpDropped := c.udpDropped + 1 }),
      { task with stage := .releasing })
  | .releasing => some (sh.count (·.releasePending), { task with stage := .freeing })
  | .freeing => some ({ sh with credits := sh.credits + 1 }, { task with stage := .finished })
  | .finished => none

end DatagramTask

namespace Receiver

inductive Input where
  | go
  | datagram (message : Bytes) (peer : Option String) (now : ℕ)
  | cancelled
  deriving DecidableEq, Repr

/-- One step of `serve_datagrams` and the task it spawns, if any. A datagram longer than the
buffer arrives cut to its length. -/
def step (config : Config) (sh : Shared) (receiver : Receiver) (input : Input) :
    Option (Shared × Receiver × Option DatagramTask) :=
  match receiver, input with
  | .receiving, .datagram message peer now =>
    if config.udpMaxDatagramBytes ≤ message.length then some (sh, .truncated, none)
    else some ({ sh with received := sh.received + 1 }, .crediting message peer now, none)
  | .receiving, .cancelled => if sh.cancelled then some (sh, .stopped, none) else none
  | .truncated, .go =>
    some (sh.count (fun c => { c with udpTruncated := c.udpTruncated + 1 }), .receiving, none)
  | .crediting message peer now, .go =>
    if 0 < sh.credits then
      some ({ sh with credits := sh.credits - 1 }, .numbering message peer now, none)
    else some (sh, .uncredited, none)
  | .uncredited, .go =>
    some (sh.count (fun c => { c with udpDropped := c.udpDropped + 1 }), .receiving, none)
  | .numbering message peer now, .go =>
    some ({ sh with nextMessageId := sh.nextMessageId + 1 },
      .gauging ⟨message, false, peer, .datagram, now, sh.nextMessageId⟩, none)
  | .gauging p, .go =>
    some (sh.count (fun c => { c with pending := c.pending + 1 }), .spawning p, none)
  | .spawning p, .go => some (sh, .receiving, some ⟨p, .delivering .pushing⟩)
  | _, _ => none

end Receiver

namespace Listener

inductive Input where
  | go
  | accepted (peer : Option String)
  | cancelled
  deriving DecidableEq, Repr

/-- One step of an accept loop and the peer of the connection it spawns, if any. -/
def step (config : Config) (sh : Shared) (listener : Listener) (input : Input) :
    Option (Shared × Listener × Option Conn) :=
  match listener, input with
  | .accepting, .accepted peer =>
    some ({ sh with connections := sh.connections + 1 }, .counted peer sh.connections, none)
  | .accepting, .cancelled => if sh.cancelled then some (sh, .stopped, none) else none
  | .counted peer before, .go =>
    some (sh, if config.maxConnections ≤ before then .refusing else .opening peer, none)
  | .refusing, .go => some ({ sh with connections := sh.connections - 1 }, .refused, none)
  | .refused, .go =>
    some (sh.count (fun c => { c with connectionsRefused := c.connectionsRefused + 1 }),
      .accepting, none)
  | .opening peer, .go =>
    some (sh.count (fun c => { c with connectionsOpened := c.connectionsOpened + 1 }),
      .spawning peer, none)
  | .spawning peer, .go => some (sh, .accepting, some (.start config peer))
  | _, _ => none

end Listener

/-- The listeners at work. `foreign` records the ids that other servers of the process drew
from the same counter, and `swept` the messages a timed out drain found on the gauge. -/
structure System where
  shared : Shared
  listeners : List Listener
  conns : List Conn
  receiver : Receiver
  tasks : List DatagramTask
  workers : List (Option SyslogDelivery)
  drain : Drain
  foreign : List ℕ
  swept : Multiset ℕ
  deriving DecidableEq

section Accounts

/-- What a message on the gauge holds until it is decided. -/
def PendingMessage.tokens (p : PendingMessage) : Account :=
  {.permit} + {.gauged p.messageId} + {.opened p.messageId}

def Reader.account : Reader → Account
  | .numbering _ _ => {.permit}
  | .gauging p => {.permit} + {.opened p.messageId}
  | .sending p | .unsent p => p.tokens
  | .abandoning p => {.gauged p.messageId} + {.opened p.messageId}
  | .releasing p => {.gauged p.messageId}
  | _ => 0

def Delivery.account : Delivery → Account
  | .receiving | .finished => 0
  | .delivering p _ _ | .checking p _ | .sleeping p _ | .abandoning p => p.tokens
  | .releasing p => {.permit} + {.gauged p.messageId}
  | .dropping _ => {.permit}

def numbers (ids : List ℕ) : Account := (ids.map Token.number : List Token)

/-- What a connection holds in its reader, its channel and its delivery task. -/
def Conn.account (c : Conn) : Account :=
  c.reader.account + ((c.channel.map PendingMessage.tokens).sum + c.delivery.account +
    numbers (c.numbered.map PendingMessage.messageId))

def Receiver.account : Receiver → Account
  | .crediting _ _ _ | .uncredited => {.anonymous}
  | .numbering _ _ _ => {.permit} + {.anonymous}
  | .gauging p => {.permit} + {.opened p.messageId} + {.number p.messageId}
  | .spawning p => p.tokens + {.number p.messageId}
  | _ => 0

def DatagramTask.account (task : DatagramTask) : Account :=
  (match task.stage with
  | .delivering _ | .dropping => task.pending.tokens
  | .releasing => {.permit} + {.gauged task.pending.messageId}
  | .freeing => {.permit}
  | .finished => 0) + {.number task.pending.messageId}

def System.account (s : System) : Account :=
  (s.conns.map Conn.account).sum + (s.tasks.map DatagramTask.account).sum + s.receiver.account +
    numbers s.foreign

end Accounts

/-- What the worker threads do. -/
inductive WorkerMove where
  | hire
  | take (k : ℕ)
  | answer (k : ℕ) (result : HandlerResult)
  | quit (k : ℕ)
  | dropReceivers
  deriving DecidableEq, Repr

/-- What `Server::stop` does. -/
inductive DrainMove where
  | stopAccepting
  | wait
  | complete
  | timeout
  | swap
  | abandon
  deriving DecidableEq, Repr

inductive Action where
  | listener (i : ℕ) (input : Listener.Input)
  | reader (i : ℕ) (input : Conn.Input)
  | delivery (i : ℕ)
  | receiver (input : Receiver.Input)
  | task (i : ℕ)
  | worker (move : WorkerMove)
  | drain (move : DrainMove)
  | elsewhere
  deriving DecidableEq, Repr

namespace System

def start (config : Config) : System where
  shared := .start config
  listeners := List.replicate config.streamListeners .accepting
  conns := []
  receiver := if config.datagramListener then .receiving else .stopped
  tasks := []
  workers := []
  drain := .idle
  foreign := []
  swept := 0

/-- Every task that the tracker counts has ended. Delivery tasks are not tracked. -/
def Tracked (s : System) : Prop :=
  (∀ l ∈ s.listeners, l = .stopped) ∧
  (∀ c ∈ s.conns, c.reader = .done ∨ c.reader = .panicked) ∧
  s.receiver = .stopped ∧ ∀ t ∈ s.tasks, t.stage = .finished

instance (s : System) : Decidable s.Tracked := inferInstanceAs (Decidable (_ ∧ _ ∧ _ ∧ _))

/-- One step of the worker threads. A worker that quits drops what it holds unanswered, and
the queue is dropped with its last receiver. -/
def workerStep (s : System) : WorkerMove → Option System
  | .hire => if s.shared.receiversGone then none else some { s with workers := s.workers ++ [none] }
  | .take k =>
    match s.workers[k]?, s.shared.queue with
    | some none, d :: queue =>
      some { s with
        shared := { s.shared with queue := queue }
        workers := s.workers.set k (some d) }
    | _, _ => none
  | .answer k result =>
    match s.workers[k]? with
    | some (some d) =>
      some { s with
        shared := s.shared.answer d (.send result)
        workers := s.workers.set k none }
    | _ => none
  | .quit k =>
    match s.workers[k]? with
    | some (some d) =>
      some { s with
        shared := s.shared.answer d .dropSender
        workers := s.workers.eraseIdx k }
    | some none => some { s with workers := s.workers.eraseIdx k }
    | none => none
  | .dropReceivers =>
    if s.workers = [] then
      some { s with
        shared := { s.shared.queue.foldl (fun sh d => sh.answer d .dropSender) s.shared with
          queue := []
          receiversGone := true } }
    else none

/-- One step of `stop` and of `SyslogRuntime::drain`. -/
def drainStep (s : System) : DrainMove → Option System
  | .stopAccepting => some { s with shared := { s.shared with cancelled := true } }
  | .wait =>
    if s.drain = .idle then
      some { s with shared := { s.shared with cancelled := true }, drain := .waiting }
    else none
  | .complete =>
    if s.drain = .waiting ∧ s.Tracked then some { s with drain := .completed } else none
  | .timeout =>
    if s.drain = .waiting ∧ ¬ s.Tracked then some { s with drain := .expired } else none
  | .swap =>
    if s.drain = .expired then
      some { s with
        shared := s.shared.count (fun c => { c with pending := 0 })
        drain := .swapped s.shared.counters.pending
        swept := Account.onGauge s.account }
    else none
  | .abandon =>
    match s.drain with
    | .swapped n =>
      some { s with
        shared := s.shared.count (fun c =>
          { c with abandonedAtShutdown := c.abandonedAtShutdown + n })
        drain := .timedOut }
    | _ => none

def exec (config : Config) (s : System) : Action → Option System
  | .listener i input =>
    s.listeners[i]?.bind (fun l =>
      (l.step config s.shared input).map (fun out =>
        { s with
          shared := out.1
          listeners := s.listeners.set i out.2.1
          conns := s.conns ++ out.2.2.toList }))
  | .reader i input =>
    s.conns[i]?.bind (fun c =>
      (c.readerStep config s.shared input).map (fun out =>
        { s with shared := out.1, conns := s.conns.set i out.2 }))
  | .delivery i =>
    s.conns[i]?.bind (fun c =>
      (c.deliveryStep config s.shared).map (fun out =>
        { s with shared := out.1, conns := s.conns.set i out.2 }))
  | .receiver input =>
    (s.receiver.step config s.shared input).map (fun out =>
      { s with shared := out.1, receiver := out.2.1, tasks := s.tasks ++ out.2.2.toList })
  | .task i =>
    s.tasks[i]?.bind (fun t =>
      (t.step config s.shared).map (fun out =>
        { s with shared := out.1, tasks := s.tasks.set i out.2 }))
  | .elsewhere =>
    some { s with
      shared := { s.shared with nextMessageId := s.shared.nextMessageId + 1 }
      foreign := s.foreign ++ [s.shared.nextMessageId] }
  | .worker move => s.workerStep move
  | .drain move => s.drainStep move

/-- The states of all runs. -/
abbrev Reachable (config : Config) : System → Prop :=
  Reached (exec config) (fun _ _ => True) (start config)

end System
end HyperRuby.Dispatch
