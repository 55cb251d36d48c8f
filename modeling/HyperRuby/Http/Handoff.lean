import HyperRuby.Http.Message
import HyperRuby.Library.Transition

/-! # The hand-off of requests to the workers

`handle_request` reads the body of a request, offers the request to a bounded channel, polls
while the channel is full, and waits on a oneshot for the response. Worker threads take
requests from the channel, call the block and answer. Handlers and threads take one operation
at a time, in any order; the clock ticks between them.
-/
namespace HyperRuby.Http
open Framing Library

structure HandoffConfig where
  recvTimeout : ℕ
  channelCapacity : ℕ
  sendTimeout : ℕ
  deriving DecidableEq, Repr

/-- A request whose body has not been read. -/
structure Parts where
  method : Method
  path : Bytes
  headers : HeaderMap
  deriving DecidableEq, Repr

def fromParts (parts : Parts) (body : Bytes) : HyperRequest :=
  ⟨parts.method, parts.path, parts.headers, body⟩

/-- A request and the oneshot for its response. The number is that of the call of
`handle_request` that made it; the code does not look at it. -/
structure RequestWithCompletion where
  id : ℕ
  request : HyperRequest
  responseTx : ℕ
  deriving DecidableEq, Repr

section Responses

def tooBusyResponse (isGrpc : Bool) : HyperResponse :=
  if isGrpc then createGrpcErrorResponse 429 8 "Server too busy, try again later"
  else createTooManyRequestsResponse "Server too busy, try again later"

def shuttingDownResponse (isGrpc : Bool) : HyperResponse :=
  if isGrpc then createGrpcErrorResponse 500 13 "Server shutting down"
  else createErrorResponse "Server shutting down"

def noAnswerResponse (isGrpc : Bool) : HyperResponse :=
  if isGrpc then createGrpcErrorResponse 500 13 "Failed to get response"
  else createErrorResponse "Failed to get response"

inductive BlockResult where
  | grpcResponse (response : HyperResponse)
  | response (response : HyperResponse)
  | other
  | raised
  deriving DecidableEq, Repr

def BlockResult.toResponse : BlockResult → HyperResponse
  | .grpcResponse r => r
  | .response r => r
  | .other => createErrorResponse "Internal server error"
  | .raised => createErrorResponse "Internal server error"

end Responses

/-- Where the response of a call comes from. -/
inductive Origin where
  | bodyTimeout
  | badLength
  | tooBusy
  | shuttingDown
  | noAnswer
  | worker
  deriving DecidableEq, Repr

/-- Where a call of `handle_request` stands. Before the first `try_send` there is no start of
the polling. A call whose future is dropped ends where it is. -/
inductive Stage where
  | collecting (declaredLen : Option ℕ) (since : ℕ)
  | sending (completion : RequestWithCompletion) (start : Option ℕ)
  | polling (completion : RequestWithCompletion) (start : ℕ)
  | sleeping (completion : RequestWithCompletion) (start wake : ℕ)
  | waiting (responseRx : ℕ) (isGrpc : Bool)
  | returned (origin : Origin) (response : HyperResponse)
  | failed
  | dropped
  deriving DecidableEq, Repr

structure Handler where
  parts : Parts
  stage : Stage
  deriving DecidableEq, Repr

/-- A worker thread: at the head of its loop, blocked on the channel, with a request it has
taken, or in the block. -/
inductive Thread where
  | idle
  | receiving
  | holding (work : RequestWithCompletion)
  | calling (work : RequestWithCompletion)
  | ended
  deriving DecidableEq, Repr

inductive Content where
  | empty
  | value (response : HyperResponse)
  | senderDropped
  | receiverDropped
  deriving DecidableEq, Repr

/-- A oneshot, with the call that made it. -/
structure Oneshot where
  owner : ℕ
  content : Content
  deriving DecidableEq, Repr

/-- What the sender does counts as long as nothing has happened. -/
def Oneshot.put (content : Content) (o : Oneshot) : Oneshot :=
  if o.content = .empty then { o with content := content } else o

def Oneshot.dropReceiver (o : Oneshot) : Oneshot := { o with content := .receiverDropped }

/-- The calls of `handle_request`, the channel, the threads and the oneshots. `calls` records
the requests passed to the block, `produced` the responses made by threads. -/
structure Exchange where
  handlers : List Handler
  queue : List RequestWithCompletion
  threads : List Thread
  oneshots : List Oneshot
  disconnected : Bool
  now : ℕ
  calls : List ℕ
  produced : List (ℕ × HyperResponse)
  deriving DecidableEq, Repr

inductive HandlerEvent where
  | body (collected : Option Bytes)
  | expire
  | proceed (receiver : Option ℕ)
  | drop
  deriving DecidableEq, Repr

inductive ThreadEvent where
  | proceed
  | result (result : BlockResult)
  | syslog
  | quit
  deriving DecidableEq, Repr

inductive Action where
  | arrive (parts : Parts) (declaredLen : Option ℕ)
  | handler (i : ℕ) (event : HandlerEvent)
  | hire
  | thread (w : ℕ) (event : ThreadEvent)
  | disconnect
  | tick
  deriving DecidableEq, Repr

inductive TrySend where
  | ok
  | full
  | disconnected
  deriving DecidableEq, Repr

namespace Exchange

def init : Exchange := ⟨[], [], [], [], false, 0, [], []⟩

def enter (s : Exchange) (i : ℕ) (h : Handler) (stage : Stage) : Exchange :=
  { s with handlers := s.handlers.set i { h with stage := stage } }

def put (s : Exchange) (tx : ℕ) (content : Content) : Exchange :=
  { s with oneshots := s.oneshots.modify tx (Oneshot.put content) }

/-- `try_send`. A channel without capacity hands the item to a thread that is blocked on it, and
is full when there is none. A refused item comes back to the caller. -/
def trySend (config : HandoffConfig) (s : Exchange) (completion : RequestWithCompletion)
    (receiver : Option ℕ) : Option (TrySend × Exchange) :=
  if s.disconnected then some (.disconnected, s)
  else if config.channelCapacity = 0 then
    match receiver with
    | some w =>
      if s.threads[w]? = some .receiving then
        some (.ok, { s with threads := s.threads.set w (.holding completion) })
      else none
    | none => if .receiving ∈ s.threads then none else some (.full, s)
  else if s.queue.length < config.channelCapacity then
    some (.ok, { s with queue := s.queue ++ [completion] })
  else some (.full, s)

/-- The body has been read: check its length, and make the completion. -/
def collected (s : Exchange) (i : ℕ) (h : Handler) (declaredLen : Option ℕ) (body : Bytes) :
    Exchange :=
  if declaredLen.any (· ≠ body.length) then
    s.enter i h (.returned .badLength
      (createBadRequestResponse "Body length does not match Content-Length"))
  else
    let completion : RequestWithCompletion := ⟨i, fromParts h.parts body, s.oneshots.length⟩
    Exchange.enter { s with oneshots := s.oneshots ++ [⟨i, .empty⟩] } i h (.sending completion none)

/-- A `try_send` of `handle_request`. The polling starts when the first one finds the channel
full. -/
def offer (config : HandoffConfig) (s : Exchange) (i : ℕ) (h : Handler)
    (completion : RequestWithCompletion) (start : Option ℕ) (receiver : Option ℕ) :
    Option Exchange :=
  let isGrpc := isGrpcRequest completion.request
  match s.trySend config completion receiver with
  | none => none
  | some (.ok, s) => some (s.enter i h (.waiting completion.responseTx isGrpc))
  | some (.full, s) => some (s.enter i h (.polling completion (start.getD s.now)))
  | some (.disconnected, s) =>
    some (s.enter i h (.returned .shuttingDown (shuttingDownResponse isGrpc)))

def proceed (config : HandoffConfig) (s : Exchange) (i : ℕ) (h : Handler)
    (receiver : Option ℕ) : Option Exchange :=
  match h.stage with
  | .sending completion start => s.offer config i h completion start receiver
  | .polling completion start =>
    if config.sendTimeout ≤ s.now - start then
      some (s.enter i h
        (.returned .tooBusy (tooBusyResponse (isGrpcRequest completion.request))))
    else some (s.enter i h (.sleeping completion start (s.now + 10)))
  | .sleeping completion start wake =>
    if wake ≤ s.now then some (s.enter i h (.sending completion (some start))) else none
  | .waiting responseRx isGrpc =>
    match (s.oneshots[responseRx]?).map Oneshot.content with
    | some (.value response) => some (s.enter i h (.returned .worker response))
    | some .senderDropped =>
      some (s.enter i h (.returned .noAnswer (noAnswerResponse isGrpc)))
    | _ => none
  | _ => none

/-- The future is dropped, and with it the receiver it waits on. -/
def drop (s : Exchange) (i : ℕ) (h : Handler) : Option Exchange :=
  match h.stage with
  | .returned _ _ | .failed | .dropped => none
  | .waiting responseRx _ =>
    let oneshots := s.oneshots.modify responseRx Oneshot.dropReceiver
    some (Exchange.enter { s with oneshots := oneshots } i h .dropped)
  | _ => some (s.enter i h .dropped)

def handle (config : HandoffConfig) (s : Exchange) (i : ℕ) (h : Handler) :
    HandlerEvent → Option Exchange
  | .body collected =>
    match h.stage, collected with
    | .collecting declaredLen _, some body => some (s.collected i h declaredLen body)
    | .collecting _ _, none => some (s.enter i h .failed)
    | _, _ => none
  | .expire =>
    match h.stage with
    | .collecting _ since =>
      if since + config.recvTimeout ≤ s.now then
        some (s.enter i h (.returned .bodyTimeout createTimeoutResponse))
      else none
    | _ => none
  | .proceed receiver => s.proceed config i h receiver
  | .drop => s.drop i h

def take (s : Exchange) (w : ℕ) : Option Exchange :=
  match s.queue with
  | work :: queue => some { s with queue := queue, threads := s.threads.set w (.holding work) }
  | [] => none

def respond (s : Exchange) (w : ℕ) (work : RequestWithCompletion) (response : HyperResponse) :
    Exchange :=
  let produced := s.produced ++ [(work.id, response)]
  Exchange.put { s with threads := s.threads.set w .idle, produced := produced } work.responseTx
    (.value response)

def threadProceeds (s : Exchange) (w : ℕ) : Thread → Option Exchange
  | .idle =>
    match s.take w with
    | some t => some t
    | none => some { s with threads := s.threads.set w .receiving }
  | .receiving => s.take w
  | .holding work =>
    match toRuby work.request with
    | some _ =>
      some { s with threads := s.threads.set w (.calling work), calls := s.calls ++ [work.id] }
    | none => some (s.respond w work (grpcResponseError 3 "Invalid gRPC request path"))
  | .calling _ | .ended => none

/-- A thread ends; a request it has taken is dropped with its sender. -/
def quit (s : Exchange) (w : ℕ) : Thread → Option Exchange
  | .idle | .receiving => some { s with threads := s.threads.set w .ended }
  | .holding work | .calling work =>
    some (Exchange.put { s with threads := s.threads.set w .ended } work.responseTx
      .senderDropped)
  | .ended => none

/-- A thread that runs a syslog message is back at the head of its loop. -/
def work (s : Exchange) (w : ℕ) (t : Thread) : ThreadEvent → Option Exchange
  | .proceed => s.threadProceeds w t
  | .result result =>
    match t with
    | .calling work => some (s.respond w work result.toResponse)
    | _ => none
  | .syslog =>
    match t with
    | .idle | .receiving => some { s with threads := s.threads.set w .idle }
    | _ => none
  | .quit => s.quit w t

/-- The last receiver is gone; what is queued is dropped. -/
def disconnect (s : Exchange) : Option Exchange :=
  if s.threads.all (· = .ended) then
    some (s.queue.foldl (fun s work => s.put work.responseTx .senderDropped)
      { s with queue := [], disconnected := true })
  else none

def exec (config : HandoffConfig) (s : Exchange) : Action → Option Exchange
  | .arrive parts declaredLen =>
    some { s with handlers := s.handlers ++ [⟨parts, .collecting declaredLen s.now⟩] }
  | .handler i event => (s.handlers[i]?).bind (fun h => s.handle config i h event)
  | .hire => some { s with threads := s.threads ++ [.idle] }
  | .thread w event => (s.threads[w]?).bind (fun t => s.work w t event)
  | .disconnect => s.disconnect
  | .tick => some { s with now := s.now + 1 }

end Exchange
end HyperRuby.Http
