import HyperRuby.Dispatch.State
import HyperRuby.Proxy.Reading

/-! # A stream connection: its reader and its delivery task

`serve_stream` frames messages and hands them over a bounded channel to
`deliver_stream_messages`, which works on one message at a time. Each atomic
operation of either task is one step; a step that has to wait gives no result.
-/
namespace HyperRuby.Dispatch
open Framing

inductive DeliveryOutcome where
  | accepted
  | refused
  | unavailable
  deriving DecidableEq, Repr

/-- Where a call of `Dispatcher::deliver` stands. -/
inductive Deliver where
  | pushing
  | awaiting (resultRx : ℕ)
  | counting (result : HandlerResult)
  deriving DecidableEq, Repr

/-- What one step of `Dispatcher::deliver` came to. -/
inductive Progress where
  | full
  | pushed (delivery : SyslogDelivery)
  | answered (result : HandlerResult)
  | ended (outcome : DeliveryOutcome)
  deriving DecidableEq, Repr

def countVerdict (sh : Shared) : HandlerResult → Shared × DeliveryOutcome
  | .accepted =>
    (sh.count (fun c => { c with messagesDelivered := c.messagesDelivered + 1 }), .accepted)
  | .refused =>
    (sh.count (fun c => { c with deliveriesRefused := c.deliveriesRefused + 1 }), .refused)
  | .failed => (sh.count (fun c => { c with handlerErrors := c.handlerErrors + 1 }), .refused)

/-- One step of `Dispatcher::deliver`. A queue without capacity hands over one delivery at a
time to a waiting worker. -/
def deliver (config : Config) (sh : Shared) (p : PendingMessage) (attempt : ℕ) :
    Deliver → Option (Shared × Progress)
  | .pushing =>
    if sh.receiversGone then some (sh, .ended .unavailable)
    else if sh.queue.length < max 1 config.channelCapacity then
      some (sh.push (p.attempted attempt), .pushed ⟨p.attempted attempt, sh.oneshots.length⟩)
    else some (sh, .full)
  | .awaiting resultRx =>
    match sh.oneshots[resultRx]? with
    | some (.value result) => some (sh, .answered result)
    | some .closed => some (sh, .ended .unavailable)
    | _ => none
  | .counting result => some ((countVerdict sh result).1, .ended (countVerdict sh result).2)

/-- The reader side of a connection. The states from `unsent` on are those of a failed
hand-over, and those from `joining` on have dropped the sender. -/
inductive Reader where
  | proxy
  | decoding
  | reading
  | acquiring (message : Bytes) (receivedAtNs : ℕ)
  | numbering (message : Bytes) (receivedAtNs : ℕ)
  | gauging (pending : PendingMessage)
  | sending (pending : PendingMessage)
  | unsent (pending : PendingMessage)
  | abandoning (pending : PendingMessage)
  | releasing (pending : PendingMessage)
  | joining
  | closing
  | closed
  | done
  | panicked
  deriving DecidableEq, Repr

def Reader.senderDropped : Reader → Bool
  | .joining | .closing | .closed | .done | .panicked => true
  | _ => false

inductive Delivery where
  | receiving
  | delivering (pending : PendingMessage) (attempt : ℕ) (stage : Deliver)
  | checking (pending : PendingMessage) (attempt : ℕ)
  | sleeping (pending : PendingMessage) (attempt : ℕ)
  | abandoning (pending : PendingMessage)
  | releasing (pending : PendingMessage)
  | dropping (pending : PendingMessage)
  | finished
  deriving DecidableEq, Repr

/-- The message the delivery task has in hand. -/
def Delivery.current : Delivery → Option PendingMessage
  | .receiving | .finished => none
  | .delivering p _ _ | .checking p _ | .sleeping p _ => some p
  | .abandoning p | .releasing p | .dropping p => some p

/-- A connection. `framed`, `numbered`, `past` and `block` only record what has happened: the
messages framed, those given an id, the messages done with and what was pushed for each of
them, and what has been pushed for the message in hand. -/
structure Conn where
  reader : Reader
  framer : Framer
  buffer : Bytes
  eof : Bool
  peer : Option String
  channel : List PendingMessage
  delivery : Delivery
  workersGone : Bool
  framed : List Bytes
  numbered : List PendingMessage
  past : List (PendingMessage × List SyslogDelivery)
  block : List SyslogDelivery
  deriving DecidableEq, Repr

namespace Conn

def start (config : Config) (peer : Option String) : Conn :=
  ⟨if config.proxyProtocol then .proxy else .decoding, .new, [], false, peer, [], .receiving,
    false, [], [], [], []⟩

/-- What reaches a reader from outside while it waits. -/
inductive Input where
  | go (now : ℕ)
  | header (chunk : Bytes)
  | proxied (source : Option String) (rest : Bytes)
  | badProxy
  | noProxy
  | read (chunk : Bytes)
  | eof
  | failed
  | idle
  | cancelled
  deriving DecidableEq, Repr

def call (config : Config) (c : Conn) : Except Trap (Reply × Framer × Bytes) :=
  if c.eof then c.framer.decodeEof config.limits c.buffer
  else c.framer.decode config.limits c.buffer

def decodeStep (config : Config) (sh : Shared) (c : Conn) (now : ℕ) : Shared × Conn :=
  match c.call config with
  | .error _ => (sh, { c with reader := .panicked })
  | .ok (.ok (some message), framer, buffer) =>
    (sh, { c with
      framer := framer, buffer := buffer, framed := c.framed ++ [message]
      reader := .acquiring message now })
  | .ok (.ok none, framer, buffer) =>
    (sh, { c with
      framer := framer, buffer := buffer, reader := if c.eof then .joining else .reading })
  | .ok (.error error, framer, buffer) =>
    (sh.count (fun k => k.recordRejection error.reason),
      { c with
        framer := framer, buffer := buffer
        reader := if error.fatal then .joining else .decoding })

/-- The `select!` between a read, the idle timeout and shutdown. -/
def readStep (config : Config) (sh : Shared) (c : Conn) : Input → Option (Shared × Conn)
  | .read chunk =>
    if chunk = [] then none
    else some (sh, { c with buffer := c.buffer ++ chunk, reader := .decoding })
  | .eof => some (sh, { c with eof := true, reader := .decoding })
  | .failed => some (sh, { c with reader := .joining })
  | .idle => if 0 < config.idleTimeout then some (sh, { c with reader := .joining }) else none
  | .cancelled => if sh.cancelled then some (sh, { c with reader := .joining }) else none
  | _ => none

/-- `read_proxy_header`: the reads that leave the header incomplete, and the one that decides
it. A failure closes the stream before a delivery task exists. -/
def proxyStep (sh : Shared) (c : Conn) : Input → Option (Shared × Conn)
  | .header chunk =>
    if chunk ≠ [] ∧
        Proxy.parse (c.buffer ++ chunk) Proxy.maxProxyHeaderBytes = .ok (.ok .incomplete) then
      some (sh, { c with buffer := c.buffer ++ chunk, reader := .proxy })
    else none
  | .proxied source rest =>
    some (sh, { c with buffer := rest, peer := source.or c.peer, reader := .decoding })
  | .badProxy =>
    some (sh.count (fun k => { k with proxyHeaderErrors := k.proxyHeaderErrors + 1 }),
      { c with delivery := .finished, reader := .closing })
  | .noProxy =>
    some (sh.count (fun k => { k with proxyReadErrors := k.proxyReadErrors + 1 }),
      { c with delivery := .finished, reader := .closing })
  | _ => none

/-- One step of `serve_stream`. -/
def readerStep (config : Config) (sh : Shared) (c : Conn) (input : Input) :
    Option (Shared × Conn) :=
  match c.reader, input with
  | .proxy, input => proxyStep sh c input
  | .decoding, .go now => some (decodeStep config sh c now)
  | .reading, input => readStep config sh c input
  | .acquiring message now, .go _ =>
    if 0 < sh.credits then
      some ({ sh with credits := sh.credits - 1 }, { c with reader := .numbering message now })
    else none
  | .numbering message now, .go _ =>
    let p : PendingMessage := ⟨message, true, c.peer, .stream, now, sh.nextMessageId⟩
    some ({ sh with nextMessageId := sh.nextMessageId + 1, numbered := sh.numbered + 1 },
      { c with reader := .gauging p, numbered := c.numbered ++ [p] })
  | .gauging p, .go _ =>
    some (sh.count (fun k => { k with pending := k.pending + 1 }), { c with reader := .sending p })
  | .sending p, .go _ =>
    if c.delivery = .finished then some (sh, { c with reader := .unsent p })
    else if c.channel.length < config.maxPendingPerConnection then
      some (sh, { c with channel := c.channel ++ [p], reader := .decoding })
    else none
  | .unsent p, .go _ =>
    some ({ sh with credits := sh.credits + 1 }, { c with reader := .abandoning p })
  | .abandoning p, .go _ => some (sh.count (·.abandon), { c with reader := .releasing p })
  | .releasing _, .go _ => some (sh.count (·.releasePending), { c with reader := .joining })
  | .joining, .go _ =>
    if c.delivery = .finished then some (sh, { c with reader := .closing }) else none
  | .closing, .go _ =>
    some ({ sh with connections := sh.connections - 1 }, { c with reader := .closed })
  | .closed, .go _ =>
    some (sh.count (fun k => { k with connectionsClosed := k.connectionsClosed + 1 }),
      { c with reader := .done })
  | _, _ => none

/-- What the delivery task makes of a step of `Dispatcher::deliver`. -/
def resume (c : Conn) (p : PendingMessage) (attempt : ℕ) : Progress → Conn
  | .full => { c with delivery := .delivering p attempt .pushing }
  | .pushed d =>
    { c with delivery := .delivering p attempt (.awaiting d.resultTx), block := c.block ++ [d] }
  | .answered result => { c with delivery := .delivering p attempt (.counting result) }
  | .ended .accepted => { c with delivery := .releasing p }
  | .ended .refused => { c with delivery := .checking p attempt }
  | .ended .unavailable => { c with delivery := .abandoning p, workersGone := true }

/-- One step of `deliver_stream_messages`. -/
def deliveryStep (config : Config) (sh : Shared) (c : Conn) : Option (Shared × Conn) :=
  match c.delivery with
  | .receiving =>
    match c.channel with
    | p :: channel =>
      some (sh, { c with
        channel := channel
        delivery := if c.workersGone then .abandoning p else .delivering p 1 .pushing })
    | [] => if c.reader.senderDropped then some (sh, { c with delivery := .finished }) else none
  | .delivering p attempt stage =>
    (deliver config sh p attempt stage).map (fun out => (out.1, c.resume p attempt out.2))
  | .checking p attempt =>
    some (sh, { c with
      delivery := if sh.cancelled then .abandoning p else .sleeping p attempt })
  | .sleeping p attempt =>
    some (sh, { c with delivery := .delivering p (attempt + 1) .pushing })
  | .abandoning p => some (sh.count (·.abandon), { c with delivery := .releasing p })
  | .releasing p => some (sh.count (·.releasePending), { c with delivery := .dropping p })
  | .dropping p =>
    some ({ sh with credits := sh.credits + 1 },
      { c with delivery := .receiving, past := c.past ++ [(p, c.block)], block := [] })
  | .finished => none

end Conn
end HyperRuby.Dispatch
