import HyperRuby.Framing.Bytes

/-! # Requests and responses

The parts of an HTTP message that the server looks at, the test for gRPC requests, the
frame around a gRPC message, and the responses that the server makes up itself.
-/
namespace HyperRuby.Http
open Framing

def ascii (text : String) : Bytes := text.toList.map (fun c => UInt8.ofNat c.toNat)

/-- Names are in lower case; a name may have several values. -/
abbrev HeaderMap := List (String × Bytes)

def lowerCase (name : String) : String := String.ofList (name.toList.map Char.toLower)

/-- The first value of a name, in whatever case it is asked for. -/
def HeaderMap.get (headers : HeaderMap) (name : String) : Option Bytes :=
  headers.lookup (lowerCase name)

/-- `HeaderValue::to_str`, which gives nothing for a value that is not visible ASCII. -/
def toStr (value : Bytes) : Option Bytes :=
  if value.all (fun b => (0x20 ≤ b && b < 0x7f) || b = 0x09) then some value else none

inductive Method where
  | options | get | post | put | delete | head | trace | connect | patch
  | extension (name : String)
  deriving DecidableEq, Repr

structure HyperRequest where
  method : Method
  path : Bytes
  headers : HeaderMap
  body : Bytes
  deriving DecidableEq, Repr

structure BodyWithTrailers where
  data : Bytes
  trailers : Option HeaderMap
  deriving DecidableEq, Repr

structure HyperResponse where
  status : ℕ
  headers : HeaderMap
  body : BodyWithTrailers
  deriving DecidableEq, Repr

section Grpc

/-- The parts of a path between slashes that are not empty. -/
def pathParts (path : Bytes) : List Bytes := (path.splitOn 0x2f).filter (· ≠ [])

def headerPasses (request : HyperRequest) (name : String) (test : Bytes → Bool) : Bool :=
  match request.headers.get name with
  | some value =>
    match toStr value with
    | some text => test text
    | none => false
  | none => false

def isGrpcRequest (request : HyperRequest) : Bool :=
  if request.method ≠ .post then false
  else if ¬ headerPasses request "content-type" (ascii "application/grpc").isPrefixOf then false
  else if ¬ headerPasses request "te" (fun text => text.tails.any (ascii "trailers").isPrefixOf)
  then false
  else if pathParts request.path = [] then false
  else true

/-- The flag and the message of the frame in front of a body. -/
def decodeGrpcFrame : Bytes → Option (Bool × Bytes)
  | flag :: b1 :: b2 :: b3 :: b4 :: rest =>
    let messageLen := ((b1.toNat * 256 + b2.toNat) * 256 + b3.toNat) * 256 + b4.toNat
    if rest.length < messageLen then none else some (flag ≠ 0, rest.take messageLen)
  | _ => none

def createGrpcErrorResponse (httpStatus grpcStatus : ℕ) (message : String) : HyperResponse where
  status := if httpStatus = 200 ∨ (400 ≤ httpStatus ∧ httpStatus < 500) then 200 else httpStatus
  headers := [("content-type", ascii "application/grpc+proto")]
  body := ⟨[], some ([("grpc-status", ascii (toString grpcStatus)),
    ("grpc-accept-encoding", ascii "identity,gzip,deflate,zstd")] ++
      if message = "" then [] else [("grpc-message", ascii message)])⟩

/-- `GrpcResponse::error`, for a message that a header may hold. -/
def grpcResponseError (status : ℕ) (message : String) : HyperResponse where
  status := 200
  headers := [("content-type", ascii "application/grpc+proto")]
  body := ⟨[], some ([("grpc-status", ascii (toString status)),
    ("grpc-accept-encoding", ascii "identity,gzip,deflate,zstd")] ++
      if message = "" then [] else [("grpc-message", ascii message)])⟩

end Grpc

section Plain

def plainText (status : ℕ) (message : String) : HyperResponse :=
  ⟨status, [("content-type", ascii "text/plain")], ⟨ascii message, none⟩⟩

def createTimeoutResponse : HyperResponse := plainText 408 "Request timed out while receiving body"
def createErrorResponse (message : String) : HyperResponse := plainText 500 message
def createTooManyRequestsResponse (message : String) : HyperResponse := plainText 429 message
def createBadRequestResponse (message : String) : HyperResponse := plainText 400 message

end Plain

section Ruby

inductive RubyRequest where
  | http (request : HyperRequest)
  | grpc (request : HyperRequest) (service method : Bytes)
  deriving DecidableEq, Repr

/-- `GrpcRequest::new`; a path of one part is taken for both names. -/
def newGrpcRequest (request : HyperRequest) : Option RubyRequest :=
  match pathParts request.path with
  | [] => none
  | [part] => some (.grpc request (ascii "echo." ++ part) part)
  | service :: method :: _ => some (.grpc request service method)

/-- What a worker makes of a request before it calls the block. -/
def toRuby (request : HyperRequest) : Option RubyRequest :=
  if isGrpcRequest request then newGrpcRequest request else some (.http request)

theorem toRuby_isSome (request : HyperRequest) : (toRuby request).isSome = true := by
  unfold toRuby
  split_ifs with h
  · have hpath : pathParts request.path ≠ [] := by
      intro hnil
      simp [isGrpcRequest, hnil] at h
    unfold newGrpcRequest
    split
    · exact absurd ‹_› hpath
    · rfl
    · rfl
  · rfl

def RubyRequest.getBodyBytes : RubyRequest → Bytes
  | .http request => request.body
  | .grpc request _ _ =>
    match decodeGrpcFrame request.body with
    | some (_, message) => message
    | none => []

def RubyRequest.getBodySize : RubyRequest → ℕ
  | .http request => request.body.length
  | .grpc request _ _ =>
    match decodeGrpcFrame request.body with
    | some (_, message) => message.length
    | none => 0

theorem getBodySize_eq (request : RubyRequest) :
    request.getBodySize = request.getBodyBytes.length := by
  cases request with
  | http request => rfl
  | grpc request service method =>
    simp only [RubyRequest.getBodySize, RubyRequest.getBodyBytes]
    split <;> rfl

end Ruby
end HyperRuby.Http
