import HyperRuby.Library.Fallible
import HyperRuby.Library.Hash
import HyperRuby.Http.Frame

/-! # Building responses

The constructors that handlers call. Names, values and the status come from the handler as they
are, and every conversion of them is unwrapped: the constructor panics on what the `http` crate
refuses. So does it where the crate's `HeaderMap` has no room for another header.
-/
namespace HyperRuby.Http
open Framing Library

/-- A Ruby string that is UTF-8. -/
structure Text where
  bytes : Bytes
  utf8 : fromUtf8 bytes = true
  deriving DecidableEq

def Text.ofAscii (bytes : Bytes) (h : bytes.all (· < 0x80) = true) : Text :=
  ⟨bytes, fromUtf8_ascii (by simpa using h)⟩

section Headers

/-- A byte of a header value: anything but controls, except for the tab. -/
def valueByte (b : UInt8) : Bool := (0x20 ≤ b && b ≠ 0x7f) || b = 0x09

/-- A byte of a token: a letter, a digit or one of fifteen marks. -/
def tokenByte (b : UInt8) : Bool :=
  (0x30 ≤ b && b ≤ 0x39) || (0x41 ≤ b && b ≤ 0x5a) || (0x61 ≤ b && b ≤ 0x7a) ||
    [0x21, 0x23, 0x24, 0x25, 0x26, 0x27, 0x2a, 0x2b, 0x2d, 0x2e, 0x5e, 0x5f, 0x60, 0x7c,
      0x7e].contains b

/-- The `unwrap` that fails; `HeaderMap::insert` has one of its own. -/
inductive Unwrap where
  | headersMut
  | headerName (name : Bytes)
  | headerValue (value : Bytes)
  | insert (name : String)
  deriving DecidableEq, Repr

def maxHeaderNameLen : ℕ := 65535

def lowerName (name : Bytes) : String :=
  String.ofList (name.map (fun b => (Char.ofNat b.toNat).toLower))

/-- `HeaderName::try_from(..).unwrap()`. -/
def headerName (name : Bytes) : Except Unwrap String :=
  if name ≠ [] ∧ name.length ≤ maxHeaderNameLen ∧ name.all tokenByte then .ok (lowerName name)
  else .error (.headerName name)

/-- `try_into().unwrap()` and `parse().unwrap()` to a header value. -/
def headerValue (value : Bytes) : Except Unwrap Bytes :=
  if value.all valueByte then .ok value else .error (.headerValue value)

theorem headerValue_of_valid {value : Bytes} (h : ∀ b ∈ value, valueByte b = true) :
    headerValue value = .ok value := if_pos (List.all_eq_true.mpr h)

theorem headerValue_eq_ok {value same : Bytes} :
    headerValue value = .ok same ↔ (∀ b ∈ value, valueByte b = true) ∧ value = same := by
  rw [headerValue, ite_eq_ok, List.all_eq_true]

theorem headerName_eq_ok {name : Bytes} {lower : String} :
    headerName name = .ok lower ↔
      (name ≠ [] ∧ name.length ≤ maxHeaderNameLen ∧ ∀ b ∈ name, tokenByte b = true) ∧
        lowerName name = lower := by
  rw [headerName, ite_eq_ok, List.all_eq_true]

theorem valueByte_toString {n : ℕ} {b : UInt8} (hb : b ∈ ascii (toString n)) :
    valueByte b = true := by
  obtain ⟨c, hc, rfl⟩ := List.mem_map.mp hb
  have hdigit : c.isDigit = true := by
    apply Nat.isDigit_of_mem_toDigits (b := 10) (n := n) (by decide) (by decide)
    simpa [toString, Nat.repr] using hc
  have hrange : 0x30 ≤ c.toNat ∧ c.toNat ≤ 0x39 := by
    simpa [Char.isDigit, UInt32.le_iff_toNat_le] using hdigit
  have hlow : (0x20 : UInt8) ≤ UInt8.ofNat c.toNat := by
    rw [UInt8.le_iff_toNat_le, UInt8.toNat_ofNat']
    simp only [UInt8.reduceToNat]
    omega
  have hdel : UInt8.ofNat c.toNat ≠ 0x7f := by
    intro h
    have := congrArg UInt8.toNat h
    rw [UInt8.toNat_ofNat'] at this
    simp only [UInt8.reduceToNat] at this
    omega
  simp [valueByte, hlow, hdel]

end Headers

/-- The table of a `HeaderMap`, as far as its insertions can fail. Whether it has room for one
more depends on the names in it: names that collide make it grow before it is full. It never
grows beyond 32768 places, of which it fills three quarters, and never early while less than a
fifth of them are taken. -/
structure HeaderTable where
  room : List String → Bool
  early : ∀ names, names.length < 6554 → room names = true
  full : ∀ names, 24576 ≤ names.length → room names = false

namespace HeaderTable

def plain : HeaderTable where
  room names := names.length < 24576
  early names h := by
    rw [decide_eq_true_iff]
    omega
  full names h := by
    rw [decide_eq_false_iff_not]
    omega

/-- `HeaderMap::insert`, which reserves a place first, also for a name that it has. -/
def insert (table : HeaderTable) (headers : HeaderMap) (name : String) (value : Bytes) :
    Except Unwrap HeaderMap :=
  if table.room (headers.map Prod.fst) then .ok (Hash.aset headers name value)
  else .error (.insert name)

theorem insert_eq_ok {table : HeaderTable} {headers more : HeaderMap} {name : String}
    {value : Bytes} :
    table.insert headers name value = .ok more ↔
      table.room (headers.map Prod.fst) = true ∧ Hash.aset headers name value = more := ite_eq_ok

end HeaderTable

namespace Response

def insertHeader (table : HeaderTable) (headers : HeaderMap) (header : Text × Text) :
    Except Unwrap HeaderMap := do
  let name ← headerName header.1.bytes
  let value ← headerValue header.2.bytes
  table.insert headers name value

/-- `Response::new`. A builder with a status that is none has no headers; one with headers always
gives a response. -/
def new (table : HeaderTable) (status : UInt16) (headers : List (Text × Text)) (body : Bytes) :
    Except Unwrap HyperResponse := do
  if status < 100 ∨ 999 < status then throw .headersMut
  let headers ← headers.foldlM (insertHeader table) []
  let length ← headerValue (if 0 < body.length then ascii (toString body.length) else ascii "0")
  let headers ← table.insert headers "content-length" length
  return ⟨status.toNat, headers, ⟨body, none⟩⟩

/-- What a header has to be. -/
def Acceptable (header : Text × Text) : Prop :=
  (header.1.bytes ≠ [] ∧ header.1.bytes.length ≤ maxHeaderNameLen ∧
    ∀ b ∈ header.1.bytes, tokenByte b = true) ∧
    ∀ b ∈ header.2.bytes, valueByte b = true

/-- The header map behind the loop. -/
def inserted (headers : List (Text × Text)) : HeaderMap :=
  Hash.collect (headers.map (fun header => (lowerName header.1.bytes, header.2.bytes)))

/-- There is room for each header in turn, and for the length of the body behind them. -/
def Roomy (table : HeaderTable) (headers : List (Text × Text)) : Prop :=
  ∀ n ≤ headers.length, table.room ((inserted (headers.take n)).map Prod.fst) = true

section Loop
variable {table : HeaderTable} {headers : List (Text × Text)}

theorem inserted_concat (headers : List (Text × Text)) (header : Text × Text) :
    inserted (headers ++ [header]) =
      Hash.aset (inserted headers) (lowerName header.1.bytes) header.2.bytes := by
  simp [inserted, Hash.collect]

theorem length_inserted_le (headers : List (Text × Text)) :
    (inserted headers).length ≤ headers.length :=
  (Hash.length_collect_le _).trans_eq (List.length_map _)

theorem roomy_of_few (h : headers.length < 6554) : Roomy table headers := by
  intro n hn
  apply table.early
  have hlength := length_inserted_le (headers.take n)
  rw [List.length_take_of_le hn] at hlength
  rw [List.length_map]
  omega

theorem not_roomy_of_full (h : 24576 ≤ (inserted headers).length) : ¬ Roomy table headers := by
  intro hroomy
  have hlast := hroomy headers.length le_rfl
  rw [List.take_length, table.full _ (by rwa [List.length_map])] at hlast
  cases hlast

theorem insertHeader_eq_ok {map more : HeaderMap} {header : Text × Text} :
    insertHeader table map header = .ok more ↔
      Acceptable header ∧ table.room (map.map Prod.fst) = true ∧
        Hash.aset map (lowerName header.1.bytes) header.2.bytes = more := by
  unfold insertHeader Acceptable
  rw [bind_eq_ok]
  constructor
  · rintro ⟨name, hname, hrest⟩
    obtain ⟨value, hvalue, hinsert⟩ := bind_eq_ok.mp hrest
    obtain ⟨htoken, rfl⟩ := headerName_eq_ok.mp hname
    obtain ⟨hvalid, rfl⟩ := headerValue_eq_ok.mp hvalue
    exact ⟨⟨htoken, hvalid⟩, HeaderTable.insert_eq_ok.mp hinsert⟩
  · rintro ⟨⟨htoken, hvalid⟩, hinsert⟩
    exact ⟨_, headerName_eq_ok.mpr ⟨htoken, rfl⟩, bind_eq_ok.mpr
      ⟨_, headerValue_eq_ok.mpr ⟨hvalid, rfl⟩, HeaderTable.insert_eq_ok.mpr hinsert⟩⟩

/-- The loop gets through the headers that are acceptable and find room. -/
theorem foldlM_insertHeader_eq_ok {map : HeaderMap} :
    headers.foldlM (insertHeader table) [] = .ok map ↔
      (∀ header ∈ headers, Acceptable header) ∧
        (∀ n < headers.length, table.room ((inserted (headers.take n)).map Prod.fst) = true) ∧
        inserted headers = map := by
  -- by induction on the headers from the last one, which meets the map of those before it
  induction headers using List.reverseRecOn generalizing map with
  | nil => simp [inserted, Hash.collect, pure, Except.pure]
  | append_singleton headers header ih =>
    have hstep : (headers ++ [header]).foldlM (insertHeader table) [] =
        (headers.foldlM (insertHeader table) [] >>= fun map => insertHeader table map header) := by
      rw [List.foldlM_append]
      simp
    have hroom : (∀ n < (headers ++ [header]).length,
          table.room ((inserted ((headers ++ [header]).take n)).map Prod.fst) = true) ↔
        (∀ n < headers.length, table.room ((inserted (headers.take n)).map Prod.fst) = true) ∧
          table.room ((inserted headers).map Prod.fst) = true := by
      rw [List.length_append, List.length_singleton, Nat.forall_lt_succ_right, List.take_left]
      refine and_congr_left fun _ => forall₂_congr fun n hn => ?_
      rw [List.take_append_of_le_length hn.le]
    rw [hstep, bind_eq_ok, List.forall_mem_append, List.forall_mem_singleton, hroom,
      inserted_concat]
    constructor
    · rintro ⟨before, hbefore, hlast⟩
      obtain ⟨hall, hrooms, rfl⟩ := ih.mp hbefore
      obtain ⟨hheader, hlastRoom, hmap⟩ := insertHeader_eq_ok.mp hlast
      exact ⟨⟨hall, hheader⟩, ⟨hrooms, hlastRoom⟩, hmap⟩
    · rintro ⟨⟨hall, hheader⟩, ⟨hrooms, hlastRoom⟩, hmap⟩
      exact ⟨_, ih.mpr ⟨hall, hrooms, rfl⟩, insertHeader_eq_ok.mpr ⟨hheader, hlastRoom, hmap⟩⟩

end Loop

theorem contentLength_eq (body : Bytes) :
    ∃ length, headerValue (if 0 < body.length then ascii (toString body.length) else ascii "0") =
      .ok length := by
  refine ⟨_, headerValue_eq_ok.mpr ⟨?_, rfl⟩⟩
  split_ifs
  · exact fun b hb => valueByte_toString hb
  · exact List.all_eq_true.mp (by decide)

theorem new_succeeds (table : HeaderTable) (status : UInt16) (headers : List (Text × Text))
    (body : Bytes) :
    Succeeds (new table status headers body) ↔
      (100 ≤ status ∧ status ≤ 999) ∧ (∀ header ∈ headers, Acceptable header) ∧
        Roomy table headers := by
  obtain ⟨length, hlength⟩ := contentLength_eq body
  by_cases hstatus : status < 100 ∨ 999 < status
  · have hnew : new table status headers body = .error .headersMut := by
      rw [new, if_pos hstatus]
      rfl
    rw [hnew]
    refine ⟨fun h => absurd h (not_succeeds_error _), fun h => absurd h.1 ?_⟩
    rintro ⟨hlow, hhigh⟩
    rcases hstatus with hlt | hlt
    · exact absurd hlt (UInt16.not_lt.mpr hlow)
    · exact absurd hlt (UInt16.not_lt.mpr hhigh)
  · have hnew : new table status headers body =
        (headers.foldlM (insertHeader table) [] >>= fun map =>
          table.insert map "content-length" length >>= fun map =>
            .ok ⟨status.toNat, map, ⟨body, none⟩⟩) := by
      rw [new, if_neg hstatus, hlength]
      rfl
    rw [hnew, succeeds_bind]
    rw [not_or, UInt16.not_lt, UInt16.not_lt] at hstatus
    constructor
    · rintro ⟨map, hmap, hrest⟩
      obtain ⟨hall, hrooms, rfl⟩ := foldlM_insertHeader_eq_ok.mp hmap
      obtain ⟨more, hmore, -⟩ := succeeds_bind.mp hrest
      refine ⟨hstatus, hall, fun n hn => ?_⟩
      rcases hn.lt_or_eq with hlt | rfl
      · exact hrooms n hlt
      · rw [List.take_length]
        exact (HeaderTable.insert_eq_ok.mp hmore).1
    · rintro ⟨-, hall, hroomy⟩
      have hlast := hroomy headers.length le_rfl
      rw [List.take_length] at hlast
      exact ⟨_, foldlM_insertHeader_eq_ok.mpr ⟨hall, fun n hn => hroomy n hn.le, rfl⟩,
        succeeds_bind.mpr ⟨_, HeaderTable.insert_eq_ok.mpr ⟨hlast, rfl⟩, succeeds_ok _⟩⟩

end Response

namespace GrpcResponse

/-- The trailers that every gRPC response starts with. -/
def trailers (status : ℕ) : Except Unwrap HeaderMap := do
  let grpcStatus ← headerValue (ascii (toString status))
  let encodings ← headerValue (ascii "identity,gzip,deflate,zstd")
  return Hash.aset (Hash.aset [] "grpc-status" grpcStatus) "grpc-accept-encoding" encodings

/-- A gRPC response has status 200, whatever it says. -/
def build (data : Bytes) (trailers : HeaderMap) : HyperResponse :=
  ⟨200, [("content-type", ascii "application/grpc+proto")], ⟨data, some trailers⟩⟩

def new (status : UInt16) (body : Bytes) : Except Unwrap HyperResponse := do
  let trailers ← trailers status.toNat
  return build (encodeGrpcFrame body) trailers

def error (status : UInt32) (message : Text) : Except Unwrap HyperResponse := do
  let trailers ← trailers status.toNat
  if message.bytes = [] then
    return build [] trailers
  else
    let grpcMessage ← headerValue message.bytes
    return build [] (Hash.aset trailers "grpc-message" grpcMessage)

def statusTrailers (status : ℕ) : HeaderMap :=
  [("grpc-status", ascii (toString status)),
    ("grpc-accept-encoding", ascii "identity,gzip,deflate,zstd")]

theorem trailers_eq (status : ℕ) : trailers status = .ok (statusTrailers status) := by
  have hencodings : headerValue (ascii "identity,gzip,deflate,zstd") =
      .ok (ascii "identity,gzip,deflate,zstd") := by decide
  rw [trailers, headerValue_of_valid (fun b hb => valueByte_toString hb), hencodings]
  rfl

theorem new_eq (status : UInt16) (body : Bytes) :
    new status body = .ok (build (encodeGrpcFrame body) (statusTrailers status.toNat)) := by
  rw [new, trailers_eq]
  rfl

theorem error_eq (status : UInt32) {message : Text}
    (h : ∀ b ∈ message.bytes, valueByte b = true) :
    error status message = .ok (build [] (statusTrailers status.toNat ++
      if message.bytes = [] then [] else [("grpc-message", message.bytes)])) := by
  rw [error, trailers_eq]
  by_cases hempty : message.bytes = []
  · simp only [hempty, if_true, List.append_nil]
    rfl
  · simp only [hempty, if_false, headerValue_of_valid h]
    rfl

theorem error_eq_grpcResponseError (status : UInt32) {message : String}
    (hutf8 : fromUtf8 (ascii message) = true)
    (h : ∀ b ∈ ascii message, valueByte b = true) :
    error status ⟨ascii message, hutf8⟩ = .ok (grpcResponseError status.toNat message) := by
  have hempty : ascii message = [] ↔ message = "" := by
    simp [ascii]
  rw [error_eq status h, grpcResponseError, build, statusTrailers]
  simp only [hempty]

theorem error_of_invalid (status : UInt32) {message : Text}
    (h : ¬ ∀ b ∈ message.bytes, valueByte b = true) :
    error status message = .error (.headerValue message.bytes) := by
  have hempty : message.bytes ≠ [] := by
    intro hnil
    exact h (by simp [hnil])
  have hvalue : headerValue message.bytes = .error (.headerValue message.bytes) := by
    rw [headerValue, if_neg (fun hall => h (List.all_eq_true.mp hall))]
  rw [error, trailers_eq]
  show (if message.bytes = [] then _ else _) = _
  rw [if_neg hempty, hvalue]
  rfl

theorem error_succeeds (status : UInt32) (message : Text) :
    Succeeds (error status message) ↔ ∀ b ∈ message.bytes, valueByte b = true := by
  by_cases h : ∀ b ∈ message.bytes, valueByte b = true
  · rw [error_eq status h]
    exact ⟨fun _ => h, fun _ => succeeds_ok _⟩
  · rw [error_of_invalid status h]
    exact ⟨fun hok => absurd hok (not_succeeds_error _), fun hvalid => absurd hvalid h⟩

end GrpcResponse

/-- The constructors return without a failing `unwrap` exactly for a status of three digits and
headers that are acceptable and find room, as any few headers do and more than the table holds do
not, and for a message without control characters. -/
theorem constructors_return (table : HeaderTable) (status : UInt16)
    (headers : List (Text × Text)) (body : Bytes) (grpcStatus : UInt32) (message : Text) :
    (Succeeds (Response.new table status headers body) ↔
      (100 ≤ status ∧ status ≤ 999) ∧ (∀ header ∈ headers, Response.Acceptable header) ∧
        Response.Roomy table headers) ∧
    (headers.length < 6554 → Response.Roomy table headers) ∧
    (24576 ≤ (Response.inserted headers).length → ¬ Response.Roomy table headers) ∧
    (Succeeds (GrpcResponse.error grpcStatus message) ↔
      ∀ b ∈ message.bytes, valueByte b = true) :=
  ⟨Response.new_succeeds table status headers body, Response.roomy_of_few,
    Response.not_roomy_of_full, GrpcResponse.error_succeeds grpcStatus message⟩

theorem constructors_return_page :
    Succeeds (Response.new .plain 200
      [(.ofAscii (ascii "Content-Type") (by decide), .ofAscii (ascii "text/html") (by decide))]
      (ascii "<p>")) ∧
    Succeeds (GrpcResponse.error 5 (.ofAscii (ascii "not found") (by decide))) := by
  obtain ⟨hnew, hfew, -, herror⟩ := constructors_return .plain 200
    [(.ofAscii (ascii "Content-Type") (by decide), .ofAscii (ascii "text/html") (by decide))]
    (ascii "<p>") 5 (.ofAscii (ascii "not found") (by decide))
  refine ⟨hnew.mpr ⟨by decide, ?_, hfew (by decide)⟩,
    herror.mpr (List.all_eq_true.mp (by decide))⟩
  exact List.forall_mem_singleton.mpr
    ⟨⟨by decide, by decide, List.all_eq_true.mp (by decide)⟩, List.all_eq_true.mp (by decide)⟩

/-- A status of two digits, a name with a blank, and a message of two lines. -/
theorem constructors_panic :
    Response.new .plain 42 [] [] = .error .headersMut ∧
      Response.new .plain 200
          [(.ofAscii (ascii "x id") (by decide), .ofAscii (ascii "7") (by decide))] [] =
        .error (.headerName (ascii "x id")) ∧
      GrpcResponse.error 13 (.ofAscii (ascii "line 1\nline 2") (by decide)) =
        .error (.headerValue (ascii "line 1\nline 2")) := by
  refine ⟨?_, ?_, GrpcResponse.error_of_invalid 13 (by decide)⟩
  · rw [Response.new, if_pos (by decide)]
    rfl
  · have hname : headerName (Text.ofAscii (ascii "x id") (by decide)).bytes =
        .error (.headerName (ascii "x id")) := by
      rw [headerName, if_neg (by decide)]
      rfl
    rw [Response.new, if_neg (by decide), List.foldlM_cons, Response.insertHeader, hname]
    rfl

end HyperRuby.Http
