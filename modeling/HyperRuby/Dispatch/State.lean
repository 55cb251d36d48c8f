import HyperRuby.Framing.Session

/-! # What the syslog tasks share

Counters, credits, the connection count, the worker queue and the answer
channels are shared by every task of the listeners. All atomic operations of
the source are single steps of the model. Counters and message ids are natural
numbers: none of them is assumed to wrap.
-/
namespace HyperRuby.Dispatch
open Framing

inductive Transport where
  | stream
  | datagram
  deriving DecidableEq, Repr

inductive HandlerResult where
  | accepted
  | refused
  | failed
  deriving DecidableEq, Repr

/-- The settings the tasks read, with the bounds that `SyslogConfig::apply` enforces. -/
structure Config where
  limits : Limits
  maxPending : ℕ
  maxPendingPerConnection : ℕ
  maxConnections : ℕ
  idleTimeout : ℕ
  proxyProtocol : Bool
  udpMaxDatagramBytes : ℕ
  streamListeners : ℕ
  datagramListener : Bool
  channelCapacity : ℕ
  pendingPos : 1 ≤ maxPending
  perConnectionPos : 1 ≤ maxPendingPerConnection
  datagramPos : 1 ≤ udpMaxDatagramBytes

structure SyslogCounters where
  messagesDelivered : ℕ
  deliveriesRefused : ℕ
  handlerErrors : ℕ
  rejectedOversize : ℕ
  rejectedInvalidUtf8 : ℕ
  rejectedInvalidLength : ℕ
  udpTruncated : ℕ
  udpDropped : ℕ
  connectionsOpened : ℕ
  connectionsClosed : ℕ
  connectionsRefused : ℕ
  proxyHeaderErrors : ℕ
  proxyReadErrors : ℕ
  abandonedAtShutdown : ℕ
  pending : ℕ
  deriving DecidableEq, Repr

namespace SyslogCounters

def zero : SyslogCounters := ⟨0, 0, 0, 0, 0, 0, 0, 0, 0, 0, 0, 0, 0, 0, 0⟩

def recordRejection (c : SyslogCounters) : RejectReason → SyslogCounters
  | .oversize => { c with rejectedOversize := c.rejectedOversize + 1 }
  | .invalidUtf8 => { c with rejectedInvalidUtf8 := c.rejectedInvalidUtf8 + 1 }
  | .invalidLength => { c with rejectedInvalidLength := c.rejectedInvalidLength + 1 }

/-- The first half of `abandon_pending`; the second is `release_pending`. -/
def abandon (c : SyslogCounters) : SyslogCounters :=
  { c with abandonedAtShutdown := c.abandonedAtShutdown + 1 }

/-- Saturating, as in the source. -/
def releasePending (c : SyslogCounters) : SyslogCounters := { c with pending := c.pending - 1 }

/-- Messages counted as delivered, abandoned or dropped. -/
def decided (c : SyslogCounters) : ℕ :=
  c.messagesDelivered + c.abandonedAtShutdown + c.udpDropped

end SyslogCounters

/-- A framed message that holds a credit until it is dropped. -/
structure PendingMessage where
  message : Bytes
  utf8 : Bool
  peer : Option String
  transport : Transport
  receivedAtNs : ℕ
  messageId : ℕ
  deriving DecidableEq, Repr

/-- One message as the worker block sees it. -/
structure SyslogMessage where
  bytes : Bytes
  utf8 : Bool
  peer : Option String
  transport : Transport
  receivedAtNs : ℕ
  messageId : ℕ
  attempt : ℕ
  deriving DecidableEq, Repr

/-- A message on its way to a worker, with the channel its verdict goes back on. -/
structure SyslogDelivery where
  message : SyslogMessage
  resultTx : ℕ
  deriving DecidableEq, Repr

def PendingMessage.attempted (p : PendingMessage) (attempt : ℕ) : SyslogMessage :=
  ⟨p.message, p.utf8, p.peer, p.transport, p.receivedAtNs, p.messageId, attempt⟩

/-- A oneshot channel carries at most one value; its sender may be dropped unused. -/
inductive Oneshot where
  | empty
  | value (result : HandlerResult)
  | closed
  deriving DecidableEq, Repr

namespace Oneshot

def send (result : HandlerResult) : Oneshot → Oneshot
  | .empty => .value result
  | channel => channel

def dropSender : Oneshot → Oneshot
  | .empty => .closed
  | channel => channel

end Oneshot

/-- Everything the tasks share. `numbered` and `received` only record how many stream
messages were given an id and how many datagrams came in whole. -/
structure Shared where
  counters : SyslogCounters
  credits : ℕ
  connections : ℕ
  nextMessageId : ℕ
  queue : List SyslogDelivery
  receiversGone : Bool
  oneshots : List Oneshot
  cancelled : Bool
  numbered : ℕ
  received : ℕ
  deriving DecidableEq, Repr

namespace Shared

def start (config : Config) : Shared :=
  ⟨.zero, config.maxPending, 0, 1, [], false, [], false, 0, 0⟩

/-- The verdict on a delivery, once a worker has given one. -/
def verdict (sh : Shared) (delivery : SyslogDelivery) : Option HandlerResult :=
  match sh.oneshots[delivery.resultTx]? with
  | some (.value result) => some result
  | _ => none

def push (sh : Shared) (message : SyslogMessage) : Shared :=
  { sh with
    queue := sh.queue ++ [⟨message, sh.oneshots.length⟩]
    oneshots := sh.oneshots ++ [.empty] }

def answer (sh : Shared) (delivery : SyslogDelivery) (change : Oneshot → Oneshot) : Shared :=
  { sh with oneshots := sh.oneshots.modify delivery.resultTx change }

def count (sh : Shared) (change : SyslogCounters → SyslogCounters) : Shared :=
  { sh with counters := change sh.counters }

end Shared
end HyperRuby.Dispatch
