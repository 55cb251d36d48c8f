import HyperRuby.Http.FillBuffer
import HyperRuby.Http.Frame
import HyperRuby.Http.Handoff

/-! # Cut-off gRPC messages

The length that a request declares is compared with what arrived. A gRPC request that declares
none is offered to the workers with whatever arrived, and a frame that is cut off reads like the
frame of an empty message.
-/
namespace HyperRuby.Http
open Framing Library

section Observation

def RString.bufNew (capacity : ℕ) : RString := ⟨List.replicate capacity 0, 0, Nat.zero_le _⟩

/-- The content of a new string that is filled with the body. -/
def RubyRequest.body (request : RubyRequest) : Except Overrun Bytes :=
  (request.fillBody (.bufNew request.getBodySize)).map (fun out => out.1.content)

/-- `GrpcRequest::is_compressed`; a plain request has no such method. -/
def RubyRequest.isCompressed : RubyRequest → Bool
  | .http _ => false
  | .grpc request _ _ =>
    match decodeGrpcFrame request.body with
    | some (compressed, _) => compressed
    | none => false

/-- All that a handler can find out about the message of a request. -/
structure Observation where
  body : Except Overrun Bytes
  fillBody : RString → Except Overrun (RString × ℕ)
  bodySize : ℕ
  compressed : Bool

def RubyRequest.observe (request : RubyRequest) : Observation :=
  ⟨request.body, request.fillBody, request.getBodySize, request.isCompressed⟩

theorem body_eq (request : RubyRequest) : request.body = .ok request.getBodyBytes := by
  have hroom : request.getBodySize ≤ (RString.bufNew request.getBodySize).capacity := by
    simp [RString.bufNew, RString.capacity]
  obtain ⟨t, hfill, hcontent⟩ := fillBody_new request hroom
  rw [RubyRequest.body, hfill, ← hcontent]
  rfl

/-- The message and the flag are all there is to see. -/
theorem observe_eq {request request' : RubyRequest}
    (hbytes : request.getBodyBytes = request'.getBodyBytes)
    (hflag : request.isCompressed = request'.isCompressed) :
    request.observe = request'.observe := by
  have hfill : request.fillBody = request'.fillBody := by
    funext buffer
    rw [RubyRequest.fillBody, RubyRequest.fillBody, hbytes]
  rw [RubyRequest.observe, RubyRequest.observe, body_eq, body_eq, getBodySize_eq, getBodySize_eq,
    hfill, hflag, hbytes]

end Observation

/-- A complete frame stands in front of the body. -/
def HoldsFrame (body : Bytes) : Prop :=
  ∃ flag message rest, body = flag :: (be32 message.length ++ (message ++ rest)) ∧
    message.length < 2 ^ 32

/-- Part of a frame, and not all of it. -/
structure CutOff (flag : UInt8) (message body : Bytes) : Prop where
  fits : message.length < 2 ^ 32
  cut : body <+: flag :: (be32 message.length ++ message)
  proper : body ≠ flag :: (be32 message.length ++ message)

/-- The handler sees that the message is not one of a complete frame. -/
def CanTell (request : HyperRequest) : Prop :=
  ∀ other ruby rubyOther, HoldsFrame other.body → toRuby request = some ruby →
    toRuby other = some rubyOther → isGrpcRequest other = true → ruby.observe ≠ rubyOther.observe

section Cut
variable {parts : Parts} {flag : UInt8} {message body : Bytes}

theorem isGrpcRequest_body (parts : Parts) (body body' : Bytes) :
    isGrpcRequest (fromParts parts body) = isGrpcRequest (fromParts parts body') := rfl

theorem toRuby_grpc {request : HyperRequest} (h : isGrpcRequest request = true) :
    ∃ service method, toRuby request = some (.grpc request service method) := by
  have hsome := toRuby_isSome request
  rw [toRuby, if_pos h, newGrpcRequest] at hsome ⊢
  split
  · rename_i hnil
    rw [hnil] at hsome
    cases hsome
  · exact ⟨_, _, rfl⟩
  · exact ⟨_, _, rfl⟩

/-- A cut-off frame is seen as the frame of an empty message. -/
theorem observe_cutOff (hgrpc : isGrpcRequest (fromParts parts body) = true)
    (hcut : CutOff flag message body) : ¬ CanTell (fromParts parts body) := by
  have hnone := decodeGrpcFrame_cut hcut.fits hcut.cut hcut.proper
  obtain ⟨service, method, hruby⟩ := toRuby_grpc hgrpc
  obtain ⟨service', method', hruby'⟩ := toRuby_grpc
    ((isGrpcRequest_body parts body [0, 0, 0, 0, 0]).symm.trans hgrpc)
  intro htell
  apply htell (fromParts parts [0, 0, 0, 0, 0]) _ _ ⟨0, [], [], rfl, by decide⟩ hruby hruby'
    hgrpc
  have hempty : decodeGrpcFrame [0, 0, 0, 0, 0] = some (false, []) := by decide
  apply observe_eq
  · simp [RubyRequest.getBodyBytes, fromParts, hnone, hempty]
  · simp [RubyRequest.isCompressed, fromParts, hnone, hempty]

end Cut

namespace Exchange
variable {s : Exchange} {i : ℕ} {h : Handler}

/-- The call goes on to offer the request to the workers. -/
def Offers (s : Exchange) (i : ℕ) (request : HyperRequest) : Prop :=
  ∃ h completion start, s.handlers[i]? = some h ∧ h.stage = .sending completion start ∧
    completion.request = request

/-- What arrived is offered unless another length was declared. -/
theorem collected_offers (hi : s.handlers[i]? = some h) (declaredLen : Option ℕ) (body : Bytes) :
    (s.collected i h declaredLen body).Offers i (fromParts h.parts body) ↔
      ¬ ∃ n, declaredLen = some n ∧ n ≠ body.length := by
  have hlt := (List.getElem?_eq_some_iff.mp hi).1
  have hany : declaredLen.any (· ≠ body.length) = true ↔
      ∃ n, declaredLen = some n ∧ n ≠ body.length := by
    cases declaredLen <;> simp
  rw [← hany, collected]
  split_ifs with hlength
  · refine ⟨?_, fun hnot => absurd hlength hnot⟩
    rintro ⟨h', completion, start, hi', hstage, -⟩
    rw [enter, List.getElem?_set_self hlt] at hi'
    cases hi'
    cases hstage
  · refine ⟨fun _ => hlength, fun _ => ?_⟩
    exact ⟨_, _, _, List.getElem?_set_self hlt, rfl, rfl⟩

end Exchange

/-- A request whose gRPC frame was cut off is kept from the workers, or told apart by the
handler, exactly when it declares a length and another one arrived. -/
theorem cutOff_noticed (s : Exchange) (i : ℕ) (h : Handler) (hi : s.handlers[i]? = some h)
    (declaredLen : Option ℕ) (flag : UInt8) (message body : Bytes)
    (hgrpc : isGrpcRequest (fromParts h.parts body) = true) (hcut : CutOff flag message body) :
    (¬ (s.collected i h declaredLen body).Offers i (fromParts h.parts body) ∨
        CanTell (fromParts h.parts body)) ↔
      ∃ n, declaredLen = some n ∧ n ≠ body.length := by
  rw [Exchange.collected_offers hi, not_not]
  constructor
  · rintro (hdeclared | htell)
    · exact hdeclared
    · exact absurd htell (observe_cutOff hgrpc hcut)
  · exact .inl

def echoParts : Parts :=
  ⟨.post, ascii "/echo.Echo/Echo", [("content-type", ascii "application/grpc"),
    ("te", ascii "trailers")]⟩

theorem cutOff_noticed_declared :
    ¬ (Exchange.collected ⟨[⟨echoParts, .collecting (some 7) 0⟩], [], [], [], false, 0, [], []⟩ 0
        ⟨echoParts, .collecting (some 7) 0⟩ (some 7) [1, 0, 0, 0, 2, 104]).Offers 0
          (fromParts echoParts [1, 0, 0, 0, 2, 104]) ∨
      CanTell (fromParts echoParts [1, 0, 0, 0, 2, 104]) :=
  (cutOff_noticed ⟨[⟨echoParts, .collecting (some 7) 0⟩], [], [], [], false, 0, [], []⟩ 0
    ⟨echoParts, .collecting (some 7) 0⟩ rfl (some 7) 1 [104, 105] [1, 0, 0, 0, 2, 104]
    (by decide) ⟨by decide, by decide, by decide⟩).mpr ⟨7, rfl, by decide⟩

/-- A compressed message of two bytes loses the second one: it is queued, and reads as an empty
message that is not compressed. -/
theorem cutOff_queued :
    (run (Exchange.exec ⟨5000, 1, 1000⟩) (fun _ _ => True) Exchange.init
        [.arrive echoParts none, .handler 0 (.body (some [1, 0, 0, 0, 2, 104])),
          .handler 0 (.proceed none)]).map (fun s => s.queue.map (fun work => work.request)) =
        some [fromParts echoParts [1, 0, 0, 0, 2, 104]] ∧
      ¬ CanTell (fromParts echoParts [1, 0, 0, 0, 2, 104]) := by
  have hcut : CutOff 1 [104, 105] [1, 0, 0, 0, 2, 104] := ⟨by decide, by decide, by decide⟩
  exact ⟨by decide, observe_cutOff (by decide) hcut⟩

end HyperRuby.Http
