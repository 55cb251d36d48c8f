import HyperRuby.Library.Hash
import HyperRuby.Http.Message

/-! # Reading the parameters and headers of a request

A handler asks for one value or for a hash of all of them. Asking for one value finds the first
that has the name; the hash is filled in order and keeps the last. A header value that is not
text is left out of the hash, but hides the others when it comes first.
-/
namespace HyperRuby.Http
open Framing Library

section Query
variable (parse : Bytes → List (Bytes × Bytes)) (query : Option Bytes)

/-- `Request::query_params`, over the decoding of query strings. -/
def queryParams : List (Bytes × Bytes) :=
  match query with
  | some query => (parse query).foldl (fun params pair => Hash.aset params pair.1 pair.2) []
  | none => []

/-- `Request::query_param`, which has no value for `nil`. -/
def queryParam (key : Bytes) : Option Bytes :=
  match query with
  | some query => (parse query).lookup key
  | none => none

def queryPairs : List (Bytes × Bytes) :=
  match query with
  | some query => parse query
  | none => []

theorem lookup_queryParams (key : Bytes) :
    (queryParams parse query).lookup key = (Hash.values (queryPairs parse query) key).getLast? := by
  cases query with
  | none => rfl
  | some query => exact Hash.lookup_collect (parse query) key

theorem queryParam_eq (key : Bytes) :
    queryParam parse query key = (Hash.values (queryPairs parse query) key).head? := by
  cases query with
  | none => rfl
  | some query => exact Hash.lookup_eq_head? (parse query) key

end Query

section Headers

def headerOf (headers : HeaderMap) (key : String) : Option Bytes :=
  match headers.get key with
  | some value => toStr value
  | none => none

def headersOf (headers : HeaderMap) : List (String × Bytes) :=
  headers.foldl (fun hash header =>
    match toStr header.2 with
    | some text => Hash.aset hash header.1 text
    | none => hash) []

/-- Both kinds of request read their headers alike. -/
def RubyRequest.header : RubyRequest → String → Option Bytes
  | .http request => headerOf request.headers
  | .grpc request _ _ => headerOf request.headers

def RubyRequest.headers : RubyRequest → List (String × Bytes)
  | .http request => headersOf request.headers
  | .grpc request _ _ => headersOf request.headers

/-- The headers that came with a request. -/
def RubyRequest.headerMap : RubyRequest → HeaderMap
  | .http request => request.headers
  | .grpc request _ _ => request.headers

theorem RubyRequest.header_eq (request : RubyRequest) (name : String) :
    request.header name = headerOf request.headerMap name := by
  cases request <;> rfl

theorem RubyRequest.headers_eq (request : RubyRequest) :
    request.headers = headersOf request.headerMap := by
  cases request <;> rfl

def readable (headers : HeaderMap) : List (String × Bytes) :=
  headers.filterMap (fun header => (toStr header.2).map (fun text => (header.1, text)))

theorem headersOf_eq (headers : HeaderMap) :
    headersOf headers = Hash.collect (readable headers) := by
  rw [headersOf, Hash.collect, readable, List.foldl_filterMap]
  congr 1
  funext hash header
  cases toStr header.2 <;> rfl

theorem values_readable (headers : HeaderMap) (name : String) :
    Hash.values (readable headers) name = (Hash.values headers name).filterMap toStr := by
  induction headers with
  | nil => rfl
  | cons header headers ih =>
    obtain ⟨key, value⟩ := header
    have hrest : readable ((key, value) :: headers) =
        ((toStr value).map (fun text => (key, text))).toList ++ readable headers := by
      cases htext : toStr value <;> simp [readable, htext]
    by_cases hkey : key = name
    · subst hkey
      rw [hrest, Hash.values_cons_self]
      cases htext : toStr value with
      | none =>
        rw [List.filterMap_cons_none htext, ← ih]
        rfl
      | some text =>
        rw [List.filterMap_cons_some htext, ← ih]
        exact Hash.values_cons_self key text _
    · rw [hrest, Hash.values_cons_ne hkey, ← ih]
      cases toStr value with
      | none => rfl
      | some text => exact Hash.values_cons_ne hkey text _

theorem lookup_headersOf (headers : HeaderMap) (name : String) :
    (headersOf headers).lookup name =
      ((Hash.values headers name).filterMap toStr).getLast? := by
  rw [headersOf_eq, Hash.lookup_collect, values_readable]

theorem headerOf_eq (headers : HeaderMap) (name : String) :
    headerOf headers name = (Hash.values headers (lowerCase name)).head?.bind toStr := by
  rw [headerOf, HeaderMap.get, Hash.lookup_eq_head?]
  cases (Hash.values headers (lowerCase name)).head? <;> rfl

/-- No value is text, or the first one is and no other text comes last. -/
def Unambiguous (values : List Bytes) : Prop :=
  (∀ value ∈ values, toStr value = none) ∨
    ∃ text, values.head?.bind toStr = some text ∧ (values.filterMap toStr).getLast? = some text

theorem first_eq_last_iff (values : List Bytes) :
    values.head?.bind toStr = (values.filterMap toStr).getLast? ↔ Unambiguous values := by
  constructor
  · intro hsame
    cases hfirst : values.head?.bind toStr with
    | some text => exact .inr ⟨text, hfirst, by rw [← hsame, hfirst]⟩
    | none =>
      left
      rw [hfirst] at hsame
      have hnone := List.getLast?_eq_none_iff.mp hsame.symm
      exact List.filterMap_eq_nil_iff.mp hnone
  · rintro (hnone | ⟨text, hfirst, hlast⟩)
    · rw [List.filterMap_eq_nil_iff.mpr hnone]
      cases values with
      | nil => rfl
      | cons value values => exact hnone value List.mem_cons_self
    · rw [hfirst, hlast]

end Headers

/-- One value and the hash of all agree on a parameter exactly when its first and its last value
are the same, and on a header exactly when its values are unambiguous; the hash has its headers
under their names in lower case. -/
theorem accessors_agree (parse : Bytes → List (Bytes × Bytes)) (query : Option Bytes)
    (key : Bytes) (request : RubyRequest) (name : String) :
    (queryParam parse query key = (queryParams parse query).lookup key ↔
      (Hash.values (queryPairs parse query) key).head? =
        (Hash.values (queryPairs parse query) key).getLast?) ∧
    (request.header name = request.headers.lookup (lowerCase name) ↔
      Unambiguous (Hash.values request.headerMap (lowerCase name))) ∧
    (lowerCase name = name →
      (request.header name = request.headers.lookup name ↔
        Unambiguous (Hash.values request.headerMap name))) := by
  have hheader : request.header name = request.headers.lookup (lowerCase name) ↔
      Unambiguous (Hash.values request.headerMap (lowerCase name)) := by
    rw [request.header_eq, request.headers_eq, headerOf_eq, lookup_headersOf]
    exact first_eq_last_iff _
  refine ⟨?_, hheader, fun hlower => ?_⟩
  · rw [queryParam_eq, lookup_queryParams]
  · rwa [hlower] at hheader

/-- A parameter given twice with one value, and a header with a value that is not text behind the
one that is. -/
theorem accessors_agree_repeated :
    let parse : Bytes → List (Bytes × Bytes) := fun _ =>
      [(ascii "role", ascii "user"), (ascii "role", ascii "user")]
    let request : RubyRequest :=
      .http ⟨.get, ascii "/", [("x-id", ascii "7"), ("x-id", [0xff])], []⟩
    queryParam parse (some (ascii "role=user&role=user")) (ascii "role") =
        (queryParams parse (some (ascii "role=user&role=user"))).lookup (ascii "role") ∧
      lowerCase "x-id" = "x-id" ∧ request.header "x-id" = request.headers.lookup "x-id" := by
  intro parse request
  obtain ⟨hparam, -, hheader⟩ := accessors_agree parse (some (ascii "role=user&role=user"))
    (ascii "role") request "x-id"
  have hlower : lowerCase "x-id" = "x-id" := by decide
  exact ⟨hparam.mpr (by decide), hlower, (hheader hlower).mpr (.inr ⟨_, rfl, rfl⟩)⟩

/-- A parameter given twice, and a header whose first value is not text. -/
theorem accessors_disagree :
    let parse : Bytes → List (Bytes × Bytes) := fun _ =>
      [(ascii "role", ascii "user"), (ascii "role", ascii "admin")]
    let request : RubyRequest :=
      .http ⟨.get, ascii "/", [("x-id", [0xff]), ("x-id", ascii "7")], []⟩
    queryParam parse (some (ascii "role=user&role=admin")) (ascii "role") = some (ascii "user") ∧
      (queryParams parse (some (ascii "role=user&role=admin"))).lookup (ascii "role") =
        some (ascii "admin") ∧
      request.header "x-id" = none ∧ request.headers.lookup "x-id" = some (ascii "7") := by
  decide

end HyperRuby.Http
