import HyperRuby.Http.Steps
import HyperRuby.Http.ReadBack
import HyperRuby.Http.Truncated

/-! # The responses the server makes itself

A call of `handle_request` keeps whether its request is a gRPC request from the moment the body
has been read, so the refusals behind that point have the shape the client expects. What comes
before it, and what a worker makes of a block that gave no response, is a line of text.
-/
namespace HyperRuby.Http
open Framing Library

/-- A response that a gRPC client understands. -/
def GrpcShaped (response : HyperResponse) : Prop :=
  response.headers.get "content-type" = some (ascii "application/grpc+proto") ∧
    ∃ status, receivedStatus response = some status

theorem createGrpcErrorResponse_shaped (httpStatus grpcStatus : ℕ) (message : String) :
    GrpcShaped (createGrpcErrorResponse httpStatus grpcStatus message) :=
  ⟨rfl, _, receivedStatus_eq _⟩

theorem plainText_not_shaped (status : ℕ) (message : String) :
    ¬ GrpcShaped (plainText status message) := by
  rintro ⟨-, value, hstatus⟩
  rw [receivedStatus_eq] at hstatus
  cases hstatus

section Classified
variable {config : HandoffConfig} {s t : Exchange} {i : ℕ} {h : Handler} {isGrpc : Bool}

/-- What the call has found out about its request. -/
def Stage.Classified (isGrpc : Bool) : Stage → Prop
  | .sending completion _ | .polling completion _ | .sleeping completion _ _ =>
    isGrpcRequest completion.request = isGrpc
  | .waiting _ flag => flag = isGrpc
  | .collecting _ _ | .returned _ _ | .failed | .dropped => True

/-- The body has not come in time, or has another length than the declared one. -/
def HandlerEvent.Rejects (stage : Stage) : HandlerEvent → Prop
  | .expire => True
  | .body (some bytes) => ∃ declaredLen since,
      stage = .collecting declaredLen since ∧ declaredLen.any (· ≠ bytes.length) = true
  | .body none | .proceed _ | .drop => False

/-- Where an event can take a call. -/
inductive Outcome (isGrpc : Bool) (rejects : Prop) : Stage → Prop where
  | goes {stage : Stage} (going : ∀ origin response, stage ≠ .returned origin response)
      (classified : stage.Classified isGrpc) : Outcome isGrpc rejects stage
  | relays (response : HyperResponse) : Outcome isGrpc rejects (.returned .worker response)
  | rejected {origin : Origin} {status : ℕ} {message : String} (reject : rejects) :
      Outcome isGrpc rejects (.returned origin (plainText status message))
  | refused {origin : Origin} {response : HyperResponse} (accepted : ¬ rejects)
      (shaped : isGrpc = true → GrpcShaped response) :
      Outcome isGrpc rejects (.returned origin response)

theorem Outcome.classified {rejects : Prop} {stage : Stage} (h : Outcome isGrpc rejects stage) :
    stage.Classified isGrpc := by
  cases h with
  | goes _ classified => exact classified
  | relays | rejected | refused => trivial

/-- The call is in a stage it can get to, and the other calls are where they were. -/
def Exchange.Enters (s t : Exchange) (i : ℕ) (h : Handler) (isGrpc : Bool) (rejects : Prop) :
    Prop :=
  ∃ stage, t.handlers = s.handlers.set i { h with stage := stage } ∧
    Outcome isGrpc rejects stage

theorem refusal_shaped {httpStatus grpcStatus : ℕ} {message : String} {plain : HyperResponse}
    {flag : Bool} (hflag : flag = isGrpc) (hgrpc : isGrpc = true) :
    GrpcShaped
      (if flag then createGrpcErrorResponse httpStatus grpcStatus message else plain) := by
  rw [if_pos (hflag.trans hgrpc)]
  exact createGrpcErrorResponse_shaped httpStatus grpcStatus message

theorem offer_enters {completion : RequestWithCompletion} {start receiver : Option ℕ}
    (hclass : isGrpcRequest completion.request = isGrpc)
    (he : s.offer config i h completion start receiver = some t) :
    s.Enters t i h isGrpc False := by
  unfold Exchange.offer at he
  dsimp only at he
  split at he
  · cases he
  all_goals
    have htried := tried_of_trySend ‹_›
    cases he
    cases htried
  · exact ⟨_, rfl, .goes (by simp) hclass⟩
  · exact ⟨_, rfl, .goes (by simp) hclass⟩
  · exact ⟨_, rfl, .goes (by simp) hclass⟩
  · exact ⟨_, rfl, .refused not_false (refusal_shaped hclass)⟩

theorem proceed_enters {receiver : Option ℕ} (hclass : h.stage.Classified isGrpc)
    (he : s.proceed config i h receiver = some t) : s.Enters t i h isGrpc False := by
  unfold Exchange.proceed at he
  split at he
  case h_1 completion start hstage =>
    rw [hstage] at hclass
    exact offer_enters hclass he
  case h_2 completion start hstage =>
    rw [hstage] at hclass
    split_ifs at he with hlate
    · cases he
      exact ⟨_, rfl, .refused not_false (refusal_shaped hclass)⟩
    · cases he
      exact ⟨_, rfl, .goes (by simp) hclass⟩
  case h_3 completion start wake hstage =>
    rw [hstage] at hclass
    split_ifs at he with hawake
    cases he
    exact ⟨_, rfl, .goes (by simp) hclass⟩
  case h_4 rx flag hstage =>
    rw [hstage] at hclass
    split at he
    · cases he
      exact ⟨_, rfl, .relays _⟩
    · cases he
      exact ⟨_, rfl, .refused not_false (refusal_shaped hclass)⟩
    · cases he
  case h_5 => cases he

theorem handle_enters {event : HandlerEvent}
    (hparts : isGrpcRequest (fromParts h.parts []) = isGrpc)
    (hclass : h.stage.Classified isGrpc) (he : s.handle config i h event = some t) :
    s.Enters t i h isGrpc (event.Rejects h.stage) := by
  cases event with
  | body collected =>
    simp only [Exchange.handle] at he
    split at he
    · rename_i declaredLen since body hstage
      unfold Exchange.collected at he
      split_ifs at he with hlength
      · cases he
        exact ⟨_, rfl, .rejected ⟨declaredLen, since, hstage, hlength⟩⟩
      · cases he
        -- the flag comes from the request with its body, which the test does not look at
        exact ⟨_, rfl, .goes (by simp) ((isGrpcRequest_body h.parts body []).trans hparts)⟩
    · cases he
      exact ⟨_, rfl, .goes (by simp) trivial⟩
    · cases he
  | expire =>
    simp only [Exchange.handle] at he
    split at he
    · split_ifs at he with hlate
      cases he
      exact ⟨_, rfl, .rejected trivial⟩
    · cases he
  | proceed receiver => exact proceed_enters hclass he
  | drop =>
    simp only [Exchange.handle, Exchange.drop] at he
    split at he
    case h_4 | h_5 =>
      cases he
      exact ⟨_, rfl, .goes (by simp) trivial⟩
    all_goals cases he

end Classified

section Threads
variable {config : HandoffConfig} {s t : Exchange} {w : ℕ} {thread : Thread}
  {event : ThreadEvent}

theorem take_produced (he : s.take w = some t) :
    t.handlers = s.handlers ∧ t.produced = s.produced := by
  unfold Exchange.take at he
  split at he
  · cases he
    exact ⟨rfl, rfl⟩
  · cases he

/-- A request without a path has been taken for a plain one, so nothing is produced before the
block is called. -/
theorem threadProceeds_produced (he : s.threadProceeds w thread = some t) :
    t.handlers = s.handlers ∧ t.produced = s.produced := by
  cases thread with
  | idle =>
    simp only [Exchange.threadProceeds] at he
    split at he
    · cases he
      exact take_produced ‹_›
    · cases he
      exact ⟨rfl, rfl⟩
  | receiving => exact take_produced he
  | holding work =>
    obtain ⟨ruby, hruby⟩ := Option.isSome_iff_exists.mp (toRuby_isSome work.request)
    simp only [Exchange.threadProceeds, hruby] at he
    cases he
    exact ⟨rfl, rfl⟩
  | calling | ended => cases he

theorem work_produced (he : s.work w thread event = some t) :
    t.handlers = s.handlers ∧ (t.produced = s.produced ∨ ∃ (id : ℕ) (result : BlockResult),
      event = .result result ∧ t.produced = s.produced ++ [(id, result.toResponse)]) := by
  cases event with
  | proceed =>
    obtain ⟨hhandlers, hproduced⟩ := threadProceeds_produced he
    exact ⟨hhandlers, .inl hproduced⟩
  | result result =>
    cases thread with
    | calling work =>
      cases he
      exact ⟨rfl, .inr ⟨work.id, result, rfl, rfl⟩⟩
    | idle | receiving | holding | ended => cases he
  | syslog =>
    cases thread with
    | idle | receiving =>
      cases he
      exact ⟨rfl, .inl rfl⟩
    | holding | calling | ended => cases he
  | quit =>
    cases thread with
    | idle | receiving | holding | calling =>
      cases he
      exact ⟨rfl, .inl rfl⟩
    | ended => cases he

theorem disconnect_handlers (he : s.disconnect = some t) : t.handlers = s.handlers := by
  unfold Exchange.disconnect at he
  split_ifs at he
  cases he
  apply List.foldlRecOn (motive := fun u : Exchange => u.handlers = s.handlers)
  · rfl
  · intro u hu work _
    exact hu

end Threads

namespace Exchange
variable {config : HandoffConfig} {s t : Exchange}

def Classified (s : Exchange) : Prop :=
  ∀ h ∈ s.handlers, h.stage.Classified (isGrpcRequest (fromParts h.parts []))

theorem exec_classified {a : Action} (hs : s.Classified) (he : s.exec config a = some t) :
    t.Classified := by
  cases a with
  | arrive parts declaredLen =>
    cases he
    intro h hmem
    rcases List.mem_append.mp hmem with hold | hnew
    · exact hs h hold
    · obtain rfl := List.mem_singleton.mp hnew
      trivial
  | handler i event =>
    rcases Option.bind_eq_some_iff.mp he with ⟨h, hget, hrest⟩
    obtain ⟨stage, hhandlers, houtcome⟩ :=
      handle_enters rfl (hs h (List.mem_of_getElem? hget)) hrest
    intro h' hmem
    rw [hhandlers] at hmem
    exact forall_mem_set hs houtcome.classified h' hmem
  | thread w event =>
    rcases Option.bind_eq_some_iff.mp he with ⟨thread, -, hrest⟩
    rw [Classified, (work_produced hrest).1]
    exact hs
  | disconnect =>
    rw [Classified, disconnect_handlers he]
    exact hs
  | hire | tick =>
    cases he
    exact hs

theorem run_classified (hs : Reached (exec config) (fun _ _ => True) init s) : s.Classified := by
  apply Reached.invariant Classified _ _ hs
  · intro h hmem
    cases hmem
  · intro s a t _ _ hinv he
    exact exec_classified hinv he

/-- A response that the server makes itself for the call `i`: one that the call returns without
a worker, or one that a thread makes while the block has given none. -/
inductive Makes (config : HandoffConfig) (s : Exchange) : Action → ℕ → HyperResponse → Prop where
  | handler {i : ℕ} {event : HandlerEvent} {t : Exchange} {h : Handler} {origin : Origin}
      {response : HyperResponse} (he : s.exec config (.handler i event) = some t)
      (hget : t.handlers[i]? = some h) (returned : h.stage = .returned origin response)
      (own : origin ≠ .worker) : Makes config s (.handler i event) i response
  | thread {w i : ℕ} {event : ThreadEvent} {t : Exchange} {response : HyperResponse}
      (he : s.exec config (.thread w event) = some t)
      (produced : t.produced = s.produced ++ [(i, response)])
      (own : ∀ r, event ≠ .result (.response r) ∧ event ≠ .result (.grpcResponse r)) :
      Makes config s (.thread w event) i response

/-- The server answers in plain text, whatever the request is: its body has not come in time or
has another length than the declared one, or the block has raised or given no response. -/
def AnswersPlain (s : Exchange) : Action → Prop
  | .handler i event => ∃ h, s.handlers[i]? = some h ∧ event.Rejects h.stage
  | .thread _ (.result result) => result = .other ∨ result = .raised
  | _ => False

end Exchange

section Shaped
variable {config : HandoffConfig} {s t : Exchange} {i : ℕ} {h : Handler} {response : HyperResponse}

theorem handler_shaped {event : HandlerEvent} {h' : Handler} {origin : Origin}
    (hs : s.Classified) (hi : s.handlers[i]? = some h)
    (hgrpc : isGrpcRequest (fromParts h.parts []) = true)
    (he : s.exec config (.handler i event) = some t) (hget : t.handlers[i]? = some h')
    (hreturned : h'.stage = .returned origin response) (hown : origin ≠ .worker) :
    GrpcShaped response ↔ ¬ event.Rejects h.stage := by
  have hlt := (List.getElem?_eq_some_iff.mp hi).1
  have hclass := hs h (List.mem_of_getElem? hi)
  rw [hgrpc] at hclass
  rw [Exchange.exec, hi] at he
  obtain ⟨stage, hhandlers, houtcome⟩ := handle_enters hgrpc hclass he
  rw [hhandlers, List.getElem?_set_self hlt] at hget
  cases hget
  obtain rfl : stage = .returned origin response := hreturned
  cases houtcome with
  | goes going => exact absurd rfl (going origin response)
  | relays => exact absurd rfl hown
  | rejected reject => exact iff_of_false (plainText_not_shaped _ _) (not_not.mpr reject)
  | refused accepted shaped => exact iff_of_true (shaped rfl) accepted

theorem thread_not_shaped {w : ℕ} {event : ThreadEvent}
    (he : s.exec config (.thread w event) = some t)
    (hproduced : t.produced = s.produced ++ [(i, response)])
    (hown : ∀ r, event ≠ .result (.response r) ∧ event ≠ .result (.grpcResponse r)) :
    ¬ GrpcShaped response ∧ s.AnswersPlain (.thread w event) := by
  rcases Option.bind_eq_some_iff.mp he with ⟨thread, -, hrest⟩
  rcases (work_produced hrest).2 with hsame | ⟨id, result, rfl, hmade⟩
  · rw [hsame] at hproduced
    simp at hproduced
  · obtain ⟨-, rfl⟩ : id = i ∧ result.toResponse = response := by
      simpa [hmade] using hproduced
    cases result with
    | response r => exact absurd rfl (hown r).1
    | grpcResponse r => exact absurd rfl (hown r).2
    | other => exact ⟨plainText_not_shaped _ _, .inl rfl⟩
    | raised => exact ⟨plainText_not_shaped _ _, .inr rfl⟩

end Shaped

/-- In every state that can be reached, a response that the server makes itself for a gRPC
request has the shape of one, unless it is one of the plain answers. -/
theorem grpcErrors_shaped (config : HandoffConfig) (s : Exchange)
    (hs : Reached (Exchange.exec config) (fun _ _ => True) Exchange.init s)
    (a : Action) (i : ℕ) (h : Handler) (response : HyperResponse)
    (hi : s.handlers[i]? = some h) (hgrpc : isGrpcRequest (fromParts h.parts []) = true)
    (hmakes : s.Makes config a i response) :
    GrpcShaped response ↔ ¬ s.AnswersPlain a := by
  cases hmakes with
  | handler he hget hreturned hown =>
    rw [handler_shaped (Exchange.run_classified hs) hi hgrpc he hget hreturned hown]
    constructor
    · rintro haccepted ⟨h', hi', hrejects⟩
      obtain rfl : h = h' := by simpa [hi] using hi'
      exact haccepted hrejects
    · intro haccepted hrejects
      exact haccepted ⟨h, hi, hrejects⟩
  | thread he hproduced hown =>
    obtain ⟨hplain, hanswers⟩ := thread_not_shaped he hproduced hown
    exact iff_of_false hplain (not_not.mpr hanswers)

/-- Without workers the call is told that the server is shutting down. -/
theorem grpcErrors_shaped_disconnected :
    ∃ s, Reached (Exchange.exec ⟨5000, 1, 1000⟩) (fun _ _ => True) Exchange.init s ∧
      s.Makes ⟨5000, 1, 1000⟩ (.handler 0 (.proceed none)) 0 (shuttingDownResponse true) ∧
      GrpcShaped (shuttingDownResponse true) := by
  have hrun : ∃ s, Reached (Exchange.exec ⟨5000, 1, 1000⟩) (fun _ _ => True) Exchange.init s ∧
      s = ⟨[⟨echoParts, .sending ⟨0, fromParts echoParts [], 0⟩ none⟩], [], [], [⟨0, .empty⟩],
        true, 0, [], []⟩ :=
    exists_reached [.arrive echoParts none, .handler 0 (.body (some [])), .disconnect]
      (by decide +kernel)
  rcases hrun with ⟨s, hs, hstate⟩
  have hmakes : s.Makes ⟨5000, 1, 1000⟩ (.handler 0 (.proceed none)) 0
      (shuttingDownResponse true) := by
    subst hstate
    exact .handler rfl rfl rfl (by decide)
  have haccepted : ¬ s.AnswersPlain (.handler 0 (.proceed none)) := by
    rintro ⟨h, -, hrejects⟩
    exact hrejects
  exact ⟨s, hs, hmakes, (grpcErrors_shaped _ s hs _ 0 _ _ (by rw [hstate]; rfl) (by decide)
    hmakes).mpr haccepted⟩

/-- A gRPC client whose body comes too late gets a line of text, and so does one whose request
makes the block raise. -/
theorem grpcErrors_plain :
    isGrpcRequest (fromParts echoParts []) = true ∧
    (∃ s, Reached (Exchange.exec ⟨0, 1, 1000⟩) (fun _ _ => True) Exchange.init s ∧
      s.handlers.map Handler.parts = [echoParts] ∧
      s.Makes ⟨0, 1, 1000⟩ (.handler 0 .expire) 0 createTimeoutResponse) ∧
    (∃ s, Reached (Exchange.exec ⟨5000, 1, 1000⟩) (fun _ _ => True) Exchange.init s ∧
      s.handlers.map Handler.parts = [echoParts] ∧
      s.Makes ⟨5000, 1, 1000⟩ (.thread 0 (.result .raised)) 0
        (createErrorResponse "Internal server error")) ∧
    ¬ GrpcShaped createTimeoutResponse ∧
    ¬ GrpcShaped (createErrorResponse "Internal server error") := by
  refine ⟨by decide, ?_, ?_, plainText_not_shaped _ _, plainText_not_shaped _ _⟩
  · have hrun : ∃ s, Reached (Exchange.exec ⟨0, 1, 1000⟩) (fun _ _ => True) Exchange.init s ∧
        s = ⟨[⟨echoParts, .collecting none 0⟩], [], [], [], false, 0, [], []⟩ :=
      exists_reached [.arrive echoParts none] (by decide +kernel)
    rcases hrun with ⟨s, hs, rfl⟩
    exact ⟨_, hs, rfl, .handler rfl rfl rfl (by decide)⟩
  · have hrun : ∃ s, Reached (Exchange.exec ⟨5000, 1, 1000⟩) (fun _ _ => True) Exchange.init s ∧
        s = ⟨[⟨echoParts, .waiting 0 true⟩], [], [.calling ⟨0, fromParts echoParts [], 0⟩],
          [⟨0, .empty⟩], false, 0, [0], []⟩ :=
      exists_reached [.arrive echoParts none, .handler 0 (.body (some [])),
        .handler 0 (.proceed none), .hire, .thread 0 .proceed, .thread 0 .proceed]
        (by decide +kernel)
    rcases hrun with ⟨s, hs, rfl⟩
    exact ⟨_, hs, rfl, .thread rfl rfl (by simp)⟩

end HyperRuby.Http
