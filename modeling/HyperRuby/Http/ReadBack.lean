import HyperRuby.Http.Response

/-! # Reading a gRPC response back

The status of a gRPC response goes to the client in the trailers, behind the body. The accessor
for it looks at the headers, where it never is, so every response reads back as status 0.
-/
namespace HyperRuby.Http
open Framing Library

section Body

/-- A piece of a body on its way to the client. -/
inductive BodyFrame where
  | data (bytes : Bytes)
  | trailers (headers : HeaderMap)
  deriving DecidableEq, Repr

structure Sending where
  body : BodyWithTrailers
  dataSent : Bool
  trailersSent : Bool
  deriving DecidableEq, Repr

def pollFrame (s : Sending) : Option BodyFrame × Sending :=
  if s.dataSent = false ∧ s.body.data ≠ [] then
    (some (.data s.body.data), { s with dataSent := true })
  else if s.trailersSent = false then
    (s.body.trailers.map .trailers, { s with trailersSent := true })
  else (none, s)

/-- What a client gets that polls until there is nothing more. -/
def received : ℕ → Sending → List BodyFrame
  | 0, _ => []
  | n + 1, s =>
    match pollFrame s with
    | (some frame, s) => frame :: received n s
    | (none, _) => []

theorem received_done (n : ℕ) {s : Sending} (hdata : s.dataSent = true ∨ s.body.data = [])
    (htrailers : s.trailersSent = true) : received n s = [] := by
  cases n with
  | zero => rfl
  | succ n =>
    have hpoll : pollFrame s = (none, s) := by
      rw [pollFrame, if_neg, if_neg (by simp [htrailers])]
      rintro ⟨hunsent, hne⟩
      rcases hdata with hsent | hnil
      · rw [hsent] at hunsent
        cases hunsent
      · exact hne hnil
    rw [received, hpoll]

theorem received_trailers (n : ℕ) {s : Sending} (hdata : s.dataSent = true ∨ s.body.data = [])
    (htrailers : s.trailersSent = false) :
    received (n + 1) s = (s.body.trailers.map .trailers).toList := by
  have hpoll : pollFrame s = (s.body.trailers.map .trailers, { s with trailersSent := true }) := by
    rw [pollFrame, if_neg, if_pos htrailers]
    rintro ⟨hunsent, hne⟩
    rcases hdata with hsent | hnil
    · rw [hsent] at hunsent
      cases hunsent
    · exact hne hnil
  rw [received, hpoll]
  cases s.body.trailers with
  | none => rfl
  | some headers => simp [received_done n (s := { s with trailersSent := true }) hdata rfl]

theorem received_eq (body : BodyWithTrailers) (n : ℕ) :
    received (n + 2) ⟨body, false, false⟩ =
      (if body.data = [] then [] else [.data body.data]) ++
        (body.trailers.map .trailers).toList := by
  by_cases hdata : body.data = []
  · rw [received_trailers (n + 1) (.inr hdata) rfl, if_pos hdata, List.nil_append]
  · have hpoll : pollFrame ⟨body, false, false⟩ =
        (some (.data body.data), ⟨body, true, false⟩) := if_pos ⟨rfl, hdata⟩
    rw [received, hpoll, if_neg hdata]
    simp [received_trailers n (s := ⟨body, true, false⟩) (.inl rfl) rfl]

/-- The trailer that says how the call went, as the client gets it. -/
def receivedStatus (response : HyperResponse) : Option Bytes :=
  (received 3 ⟨response.body, false, false⟩).findSome? (fun frame =>
    match frame with
    | .data _ => none
    | .trailers headers => headers.get "grpc-status")

theorem receivedStatus_eq (response : HyperResponse) :
    receivedStatus response =
      response.body.trailers.bind (fun headers => headers.get "grpc-status") := by
  rw [receivedStatus, received_eq]
  split_ifs <;> cases response.body.trailers <;> simp

end Body

namespace GrpcResponse

def status (response : HyperResponse) : ℕ :=
  match response.headers.get "grpc-status" with
  | some value =>
    match toStr value with
    | some text => (parseUsize 16 text).getD 0
    | none => 0
  | none => 0

def body (response : HyperResponse) : Bytes :=
  match decodeGrpcFrame response.body.data with
  | some (_, message) => message
  | none => []

@[simp] theorem status_build (data : Bytes) (trailers : HeaderMap) :
    status (build data trailers) = 0 := rfl

theorem receivedStatus_build (data : Bytes) (trailers : HeaderMap) :
    receivedStatus (build data trailers) = trailers.get "grpc-status" := receivedStatus_eq _

theorem get_statusTrailers (status : ℕ) (more : HeaderMap) :
    HeaderMap.get (statusTrailers status ++ more) "grpc-status" =
      some (ascii (toString status)) := rfl

theorem body_new {message : Bytes} (hfits : message.length < 2 ^ 32) (trailers : HeaderMap) :
    body (build (encodeGrpcFrame message) trailers) = message := by
  rw [body, build, (decodeGrpcFrame_encode_iff message).mpr hfits]

end GrpcResponse

/-- A gRPC response reads back what it was built from exactly when the status is 0. -/
theorem grpcResponse_reads_back (status : UInt16) (body : Bytes) (errorStatus : UInt32)
    (message : Text) :
    (body.length < 2 ^ 32 →
      ∃ r, GrpcResponse.new status body = .ok r ∧
        (GrpcResponse.status r = status.toNat ∧ GrpcResponse.body r = body ↔ status = 0)) ∧
    (errorStatus.toNat < 2 ^ 16 → (∀ b ∈ message.bytes, valueByte b = true) →
      ∃ e, GrpcResponse.error errorStatus message = .ok e ∧
        ((GrpcResponse.status e = errorStatus.toNat ∧ GrpcResponse.body e = [] ∧
          receivedStatus e = some (ascii (toString (GrpcResponse.status e)))) ↔
            errorStatus = 0)) := by
  constructor
  · intro hfits
    refine ⟨_, GrpcResponse.new_eq status body, ?_⟩
    rw [GrpcResponse.status_build, GrpcResponse.body_new hfits]
    constructor
    · rintro ⟨hstatus, -⟩
      exact UInt16.toNat.inj hstatus.symm
    · rintro rfl
      exact ⟨rfl, rfl⟩
  · intro _ hvalid
    refine ⟨_, GrpcResponse.error_eq errorStatus hvalid, ?_⟩
    rw [GrpcResponse.status_build, GrpcResponse.receivedStatus_build,
      GrpcResponse.get_statusTrailers]
    constructor
    · rintro ⟨hstatus, -⟩
      exact UInt32.toNat.inj hstatus.symm
    · rintro rfl
      exact ⟨rfl, rfl, rfl⟩

theorem grpcResponse_reads_back_ok :
    ∃ r, GrpcResponse.new 0 [104, 105] = .ok r ∧ GrpcResponse.status r = 0 ∧
      GrpcResponse.body r = [104, 105] := by
  obtain ⟨r, hnew, hback⟩ :=
    (grpcResponse_reads_back 0 [104, 105] 0 (.ofAscii [] rfl)).1 (by decide)
  exact ⟨r, hnew, hback.mpr rfl⟩

/-- A response that tells the client of status 5 reads back as status 0. -/
theorem grpcResponse_status_lost :
    ∃ r, GrpcResponse.new 5 [] = .ok r ∧ receivedStatus r = some (ascii "5") ∧
      GrpcResponse.status r = 0 :=
  ⟨_, GrpcResponse.new_eq 5 [], GrpcResponse.receivedStatus_build _ _, rfl⟩

end HyperRuby.Http
