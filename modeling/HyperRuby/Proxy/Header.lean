import HyperRuby.Framing.Framer

/-! # PROXY protocol v2 headers

`proxy::parse` looks at the front of a buffer: a signature, a version and a
command, an address family and a counted address block. Every index and slice
of the source is checked here, and none is ever out of range.
-/
namespace HyperRuby.Proxy
open Framing

def signature : Bytes :=
  [0x0d, 0x0a, 0x0d, 0x0a, 0x00, 0x0d, 0x0a, 0x51, 0x55, 0x49, 0x54, 0x0a]

/-- The text "PROXY " that starts a v1 header. -/
def v1Signature : Bytes := [0x50, 0x52, 0x4f, 0x58, 0x59, 0x20]

/-- Signature, version and command, family and the length of the address block. -/
def prefixLen : ℕ := 16

inductive ProxyError where
  | signature
  | version
  | command
  | family
  | tooLong
  deriving DecidableEq, Repr

inductive IpAddr where
  | v4 (octets : Vector UInt8 4)
  | v6 (octets : Vector UInt8 16)
  deriving DecidableEq, Repr

/-- The source is absent for LOCAL and for families without a network address. -/
inductive ProxyHeader where
  | incomplete
  | complete (source : Option IpAddr) (length : ℕ)
  deriving DecidableEq, Repr

section Reads

/-- `buf[i]`, which panics beyond the end. -/
def index (buf : Bytes) (i : ℕ) : Except Trap UInt8 :=
  match buf[i]? with
  | some b => .ok b
  | none => .error .indexOutOfRange

def slice (buf : Bytes) (start stop : ℕ) : Except Trap Bytes :=
  if start ≤ stop ∧ stop ≤ buf.length then .ok ((buf.take stop).drop start)
  else .error .indexOutOfRange

/-- `copy_from_slice` into an array of `n` bytes, which panics on any other length. -/
def copyFromSlice (n : ℕ) (src : Bytes) : Except Trap (Vector UInt8 n) :=
  if h : src.length = n then .ok ⟨src.toArray, by simpa using h⟩ else .error .indexOutOfRange

def fromBeBytes (high low : UInt8) : ℕ := 256 * high.toNat + low.toNat

end Reads

def source (command family : UInt8) (addressLength : ℕ) (buf : Bytes) :
    Except Trap (Except ProxyError (Option IpAddr)) :=
  if command = 0x0 then .ok (.ok none)
  else if family = 0x11 ∨ family = 0x12 then
    if addressLength < 12 then .ok (.error .family)
    else do
      let octets ← copyFromSlice 4 (← slice buf 16 20)
      return .ok (some (.v4 octets))
  else if family = 0x21 ∨ family = 0x22 then
    if addressLength < 36 then .ok (.error .family)
    else do
      let octets ← copyFromSlice 16 (← slice buf 16 32)
      return .ok (some (.v6 octets))
  else if family = 0x00 ∨ family = 0x31 ∨ family = 0x32 then .ok (.ok none)
  else .ok (.error .family)

/-- The part of `parse` behind the signature. -/
def parseBlock (buf : Bytes) (maxLength : ℕ) : Except Trap (Except ProxyError ProxyHeader) := do
  if buf.length < prefixLen then return .ok .incomplete
  let versionCommand ← index buf 12
  if versionCommand >>> 4 ≠ 0x2 then return .error .version
  let command := versionCommand &&& 0x0f
  if 0x1 < command then return .error .command
  let family ← index buf 13
  let addressLength := fromBeBytes (← index buf 14) (← index buf 15)
  let length := prefixLen + addressLength
  if maxLength < length then return .error .tooLong
  if buf.length < length then return .ok .incomplete
  return (← source command family addressLength buf).map (fun source => .complete source length)

def parse (buf : Bytes) (maxLength : ℕ) : Except Trap (Except ProxyError ProxyHeader) := do
  if buf = [] then return .ok .incomplete
  let seen := min buf.length v1Signature.length
  if (← slice buf 0 seen) = (← slice v1Signature 0 seen) then return .error .version
  let seen := min buf.length signature.length
  if (← slice buf 0 seen) ≠ (← slice signature 0 seen) then return .error .signature
  parseBlock buf maxLength

section Closed

/-- The first `n` bytes of an address block. -/
def octets (n : ℕ) (address : Bytes) (h : n ≤ address.length) : Vector UInt8 n :=
  ⟨(address.take n).toArray, by simpa using h⟩

/-- The peer named by a whole address block. -/
def sourceOf (command family : UInt8) (address : Bytes) : Except ProxyError (Option IpAddr) :=
  if command = 0x0 then .ok none
  else if family = 0x11 ∨ family = 0x12 then
    if h : address.length < 12 then .error .family
    else .ok (some (.v4 (octets 4 address (by omega))))
  else if family = 0x21 ∨ family = 0x22 then
    if h : address.length < 36 then .error .family
    else .ok (some (.v6 (octets 16 address (by omega))))
  else if family = 0x00 ∨ family = 0x31 ∨ family = 0x32 then .ok none
  else .error .family

/-- What `parse` makes of the four bytes behind the signature and of all that follows. -/
def block (maxLength : ℕ) (versionCommand family high low : UInt8) (rest : Bytes) :
    Except ProxyError ProxyHeader :=
  if versionCommand >>> 4 ≠ 0x2 then .error .version
  else if 0x1 < versionCommand &&& 0x0f then .error .command
  else if maxLength < prefixLen + fromBeBytes high low then .error .tooLong
  else if rest.length < fromBeBytes high low then .ok .incomplete
  else (sourceOf (versionCommand &&& 0x0f) family (rest.take (fromBeBytes high low))).map
    (fun source => .complete source (prefixLen + fromBeBytes high low))

theorem copyFromSlice_slice {front address : Bytes} (rest : Bytes) {n : ℕ}
    (hfront : front.length = 16)
    (h : n ≤ address.length) :
    slice (front ++ (address ++ rest)) 16 (16 + n) = .ok (address.take n) ∧
      copyFromSlice n (address.take n) = .ok (octets n address h) := by
  constructor
  · have hle : 16 + n ≤ (front ++ (address ++ rest)).length := by
      simp only [List.length_append]
      omega
    have hdrop : ((front ++ (address ++ rest)).take (16 + n)).drop 16 = address.take n := by
      rw [List.drop_take, ← hfront, List.drop_left, Nat.add_sub_cancel_left,
        List.take_append_of_le_length h]
    rw [slice, if_pos ⟨by omega, hle⟩, hdrop]
  · rw [copyFromSlice, dif_pos (by simpa using h)]
    rfl

theorem source_eq {front : Bytes} (command family : UInt8) (address rest : Bytes)
    (hfront : front.length = 16) :
    source command family address.length (front ++ (address ++ rest)) =
      .ok (sourceOf command family address) := by
  unfold source sourceOf
  by_cases hcommand : command = 0x0
  · simp only [if_pos hcommand]
  simp only [if_neg hcommand]
  by_cases hinet : family = 0x11 ∨ family = 0x12
  · simp only [if_pos hinet]
    by_cases hlong : address.length < 12
    · rw [if_pos hlong, dif_pos hlong]
    · rcases copyFromSlice_slice rest hfront (show 4 ≤ address.length by omega) with
        ⟨hslice, hcopy⟩
      rw [if_neg hlong, dif_neg hlong]
      simp only [hslice, hcopy, bind, Except.bind, pure, Except.pure]
  simp only [if_neg hinet]
  by_cases hinet6 : family = 0x21 ∨ family = 0x22
  · simp only [if_pos hinet6]
    by_cases hlong : address.length < 36
    · rw [if_pos hlong, dif_pos hlong]
    · rcases copyFromSlice_slice rest hfront (show 16 ≤ address.length by omega) with
        ⟨hslice, hcopy⟩
      rw [if_neg hlong, dif_neg hlong]
      simp only [hslice, hcopy, bind, Except.bind, pure, Except.pure]
  simp only [if_neg hinet6]
  split <;> rfl

theorem parseBlock_short {buf : Bytes} (h : buf.length < prefixLen) (maxLength : ℕ) :
    parseBlock buf maxLength = .ok (.ok .incomplete) := by
  rw [parseBlock, if_pos h]
  rfl

theorem index_append {front : Bytes} (b : UInt8) (rest : Bytes) {i : ℕ} (h : front.length = i) :
    index (front ++ b :: rest) i = .ok b := by
  rw [index, ← h, List.getElem?_append_right le_rfl, Nat.sub_self]
  rfl

theorem parseBlock_eq {front : Bytes} (hfront : front.length = 12) (maxLength : ℕ)
    (versionCommand family high low : UInt8) (rest : Bytes) :
    parseBlock (front ++ versionCommand :: family :: high :: low :: rest) maxLength =
      .ok (block maxLength versionCommand family high low rest) := by
  have hlength : (front ++ versionCommand :: family :: high :: low :: rest).length =
      prefixLen + rest.length := by
    simp only [List.length_append, List.length_cons, hfront, prefixLen]
    omega
  have hshift : ∀ (p : Bytes) (b : UInt8) (r : Bytes), p ++ b :: r = (p ++ [b]) ++ r := by simp
  have h12 : index (front ++ versionCommand :: family :: high :: low :: rest) 12 =
      .ok versionCommand := index_append _ _ hfront
  have h13 : index (front ++ versionCommand :: family :: high :: low :: rest) 13 =
      .ok family := by
    rw [hshift]
    exact index_append _ _ (by simp [hfront])
  have h14 : index (front ++ versionCommand :: family :: high :: low :: rest) 14 = .ok high := by
    rw [hshift, hshift]
    exact index_append _ _ (by simp [hfront])
  have h15 : index (front ++ versionCommand :: family :: high :: low :: rest) 15 = .ok low := by
    rw [hshift, hshift, hshift]
    exact index_append _ _ (by simp [hfront])
  unfold parseBlock block
  simp only [hlength, h12, h13, h14, h15, bind, Except.bind, pure, Except.pure,
    Nat.add_lt_add_iff_left, show ¬ prefixLen + rest.length < prefixLen by omega, if_false]
  by_cases hversion : versionCommand >>> 4 ≠ 0x2
  · rw [if_pos hversion, if_pos hversion]
  rw [if_neg hversion, if_neg hversion]
  by_cases hcommand : 0x1 < versionCommand &&& 0x0f
  · rw [if_pos hcommand, if_pos hcommand]
  rw [if_neg hcommand, if_neg hcommand]
  by_cases hlong : maxLength < prefixLen + fromBeBytes high low
  · rw [if_pos hlong, if_pos hlong]
  rw [if_neg hlong, if_neg hlong]
  by_cases hshort : rest.length < fromBeBytes high low
  · rw [if_pos hshort, if_pos hshort]
  rw [if_neg hshort, if_neg hshort]
  have hsource := source_eq (versionCommand &&& 0x0f) family
    (rest.take (fromBeBytes high low)) (rest.drop (fromBeBytes high low))
    (show (front ++ [versionCommand, family, high, low]).length = 16 by simp [hfront])
  rw [List.take_append_drop, List.length_take, Nat.min_eq_left (by omega)] at hsource
  simp only [List.append_assoc, List.cons_append, List.nil_append] at hsource
  rw [hsource]

/-- The buffer and the signature agree as far as both of them go. -/
def Matches (buf : Bytes) : Prop := buf.take signature.length = signature.take buf.length

instance (buf : Bytes) : Decidable (Matches buf) := inferInstanceAs (Decidable (_ = _))

theorem slice_front (buf : Bytes) (n : ℕ) :
    slice buf 0 (min buf.length n) = .ok (buf.take n) := by
  rw [slice, if_pos ⟨Nat.zero_le _, Nat.min_le_left _ _⟩, List.drop_zero, Nat.min_comm,
    ← List.take_eq_take_min]

theorem slice_other (whole buf : Bytes) :
    slice whole 0 (min buf.length whole.length) = .ok (whole.take buf.length) := by
  rw [Nat.min_comm, slice_front]

theorem parse_of_not_matches {buf : Bytes} (h : ¬ Matches buf) (maxLength : ℕ) :
    ∃ e, parse buf maxLength = .ok (.error e) := by
  have hne : buf ≠ [] := by
    rintro rfl
    exact h rfl
  rw [parse, if_neg hne]
  simp only [slice_front, slice_other, bind, Except.bind, pure, Except.pure]
  by_cases hv1 : buf.take v1Signature.length = v1Signature.take buf.length
  · exact ⟨_, if_pos hv1⟩
  · rw [if_neg hv1]
    exact ⟨_, if_pos h⟩

theorem parse_of_matches {buf : Bytes} (h : Matches buf) (maxLength : ℕ) :
    parse buf maxLength = parseBlock buf maxLength := by
  cases buf with
  | nil => rfl
  | cons b bs =>
    have hfirst : b = 0x0d := by
      have := congrArg List.head? h
      simpa [signature] using this
    -- the first byte already tells the two signatures apart
    have hv1 : ¬ (b :: bs).take v1Signature.length = v1Signature.take (b :: bs).length := by
      intro heq
      have := congrArg List.head? heq
      rw [hfirst] at this
      simp [v1Signature] at this
    rw [parse, if_neg (List.cons_ne_nil _ _)]
    simp only [slice_front, slice_other, bind, Except.bind, pure, Except.pure]
    rw [if_neg hv1]
    exact if_neg (not_not_intro h)

/-- `parse` refuses on the signature, waits for sixteen bytes or reads the block behind it. -/
inductive Parsed (maxLength : ℕ) (buf : Bytes) : Except ProxyError ProxyHeader → Prop
  | unmatched {e : ProxyError} (h : ¬ Matches buf) : Parsed maxLength buf (.error e)
  | short (hmatch : Matches buf) (h : buf.length < prefixLen) :
      Parsed maxLength buf (.ok .incomplete)
  | block {versionCommand family high low : UInt8} {rest : Bytes}
      (h : buf = signature ++ versionCommand :: family :: high :: low :: rest) :
      Parsed maxLength buf (block maxLength versionCommand family high low rest)

theorem Matches.split {buf : Bytes} (hmatch : Matches buf) (h : prefixLen ≤ buf.length) :
    ∃ versionCommand family high low rest,
      buf = signature ++ versionCommand :: family :: high :: low :: rest := by
  have hfront : buf.take 12 = signature := by
    have : buf.take 12 = signature.take buf.length := hmatch
    rw [this, List.take_of_length_le]
    exact Nat.le_trans (by decide) h
  have hrest : 4 ≤ (buf.drop 12).length := by
    rw [List.length_drop]
    unfold prefixLen at h
    omega
  rw [← List.take_append_drop 12 buf, hfront]
  match buf.drop 12, hrest with
  | a :: b :: c :: d :: rest, _ => exact ⟨a, b, c, d, rest, rfl⟩

theorem matches_signature (rest : Bytes) : Matches (signature ++ rest) := by
  rw [Matches, List.take_left, List.take_of_length_le]
  simp

theorem parse_signature (maxLength : ℕ) (versionCommand family high low : UInt8) (rest : Bytes) :
    parse (signature ++ versionCommand :: family :: high :: low :: rest) maxLength =
      .ok (block maxLength versionCommand family high low rest) := by
  rw [parse_of_matches (matches_signature _), parseBlock_eq rfl]

/-- The parser always returns, since no index and no slice of it is out of range. -/
theorem parse_parsed (buf : Bytes) (maxLength : ℕ) :
    ∃ r, parse buf maxLength = .ok r ∧ Parsed maxLength buf r := by
  by_cases hmatch : Matches buf
  · by_cases hshort : buf.length < prefixLen
    · rw [parse_of_matches hmatch, parseBlock_short hshort]
      exact ⟨_, rfl, .short hmatch hshort⟩
    · obtain ⟨versionCommand, family, high, low, rest, rfl⟩ :=
        hmatch.split (Nat.le_of_not_lt hshort)
      exact ⟨_, parse_signature .., .block rfl⟩
  · obtain ⟨e, he⟩ := parse_of_not_matches hmatch maxLength
    exact ⟨_, he, .unmatched hmatch⟩

theorem parsed_of_parse {buf : Bytes} {maxLength : ℕ} {r : Except ProxyError ProxyHeader}
    (h : parse buf maxLength = .ok r) : Parsed maxLength buf r := by
  obtain ⟨r', hr', hparsed⟩ := parse_parsed buf maxLength
  obtain rfl : r' = r := Except.ok.inj (hr'.symm.trans h)
  exact hparsed

end Closed

section Extension

theorem not_matches_append {buf : Bytes} (h : ¬ Matches buf) (e : Bytes) :
    ¬ Matches (buf ++ e) := by
  intro hext
  apply h
  have hcut := congrArg (List.take buf.length) hext
  rwa [List.take_take, Nat.min_comm, ← List.take_take, List.take_left, List.take_take,
    Nat.min_eq_left (by simp)] at hcut

theorem block_append {maxLength : ℕ} {versionCommand family high low : UInt8} {rest : Bytes}
    (h : block maxLength versionCommand family high low rest ≠ .ok .incomplete) (e : Bytes) :
    block maxLength versionCommand family high low (rest ++ e) =
      block maxLength versionCommand family high low rest := by
  by_cases hshort : rest.length < fromBeBytes high low
  · unfold block at h ⊢
    simp only [if_pos hshort] at h
    split_ifs at h ⊢ <;> first | rfl | exact absurd rfl h
  · have hshort' : ¬ (rest ++ e).length < fromBeBytes high low := by
      rw [List.length_append]
      omega
    unfold block
    rw [if_neg hshort, if_neg hshort', List.take_append_of_le_length (Nat.le_of_not_lt hshort)]

/-- Further bytes cannot turn a decided buffer into anything but another refusal. -/
theorem parse_append {buf : Bytes} {maxLength : ℕ} {r : Except ProxyError ProxyHeader}
    (h : parse buf maxLength = .ok r) (hr : r ≠ .ok .incomplete) (e : Bytes) :
    parse (buf ++ e) maxLength = .ok r ∨
      ∃ x y, r = .error x ∧ parse (buf ++ e) maxLength = .ok (.error y) := by
  cases parsed_of_parse h with
  | unmatched hunmatched =>
    obtain ⟨y, hy⟩ := parse_of_not_matches (not_matches_append hunmatched e) maxLength
    exact .inr ⟨_, y, rfl, hy⟩
  | short hmatch hshort => exact absurd rfl hr
  | block hbuf =>
    subst hbuf
    left
    rw [List.append_assoc]
    simp only [List.cons_append]
    rw [parse_signature, block_append hr]

theorem parse_append_complete {buf : Bytes} {maxLength : ℕ} {source : Option IpAddr} {length : ℕ}
    (h : parse buf maxLength = .ok (.ok (.complete source length))) (e : Bytes) :
    parse (buf ++ e) maxLength = .ok (.ok (.complete source length)) := by
  rcases parse_append h (by simp) e with hsame | ⟨x, y, hx, hy⟩
  · exact hsame
  · cases hx

theorem parse_append_error {buf : Bytes} {maxLength : ℕ} {x : ProxyError}
    (h : parse buf maxLength = .ok (.error x)) (e : Bytes) :
    ∃ y, parse (buf ++ e) maxLength = .ok (.error y) := by
  rcases parse_append h (by simp) e with hsame | ⟨_, y, _, hy⟩
  · exact ⟨x, hsame⟩
  · exact ⟨y, hy⟩

end Extension

end HyperRuby.Proxy
