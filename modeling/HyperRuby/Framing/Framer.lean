import HyperRuby.Framing.LinesCodec

/-! # The stream framer

RFC 6587 octet counting with a newline fallback. A decoder with no octet state
in hand enters octet counting on a leading nonzero digit; every other buffer
goes to the line codec, which keeps its own cursor and discard flag.
-/
namespace HyperRuby.Framing
open Library

/-- The word size of the machine and the frame limit, which is itself a `usize`. -/
structure Limits where
  wordSize : ℕ
  maxLength : ℕ
  representable : maxLength < 2 ^ wordSize

inductive RejectReason where
  | oversize
  | invalidUtf8
  | invalidLength
  deriving DecidableEq, Repr

/-- A fatal error loses the frame boundary; a recoverable one skips one frame. -/
structure FrameError where
  reason : RejectReason
  fatal : Bool
  deriving DecidableEq, Repr

def fatalError (reason : RejectReason) : FrameError := ⟨reason, true⟩
def recoverableError (reason : RejectReason) : FrameError := ⟨reason, false⟩

inductive State where
  | notDiscarding
  | discarding (chars : ℕ)
  | discardingToEol
  deriving DecidableEq, Repr

structure Framer where
  other : LinesCodec
  octetDecoding : Option State
  deriving DecidableEq, Repr

def Framer.new : Framer := ⟨.new, none⟩

abbrev Reply := Except FrameError (Option Bytes)

/-- `Buf::advance`, which panics beyond the end of the buffer. -/
def advance (n : ℕ) (src : Bytes) : Except Trap Bytes :=
  if n ≤ src.length then .ok (src.drop n) else .error .indexOutOfRange

theorem advance_of_le {n : ℕ} {src : Bytes} (h : n ≤ src.length) :
    advance n src = .ok (src.drop n) := if_pos h

theorem advance_split (b : UInt8) (p r : Bytes) : advance (p.length + 1) (p ++ b :: r) = .ok r := by
  rw [advance_of_le (by simp), drop_split]

/-- The declared length of a header, when its bytes are a number that fits a word. -/
def headerLength (w : ℕ) (digits : Bytes) : Option ℕ :=
  if fromUtf8 digits then parseUsize w digits else none

def lineError : LinesCodecError → FrameError
  | .maxLineLengthExceeded => recoverableError .oversize
  | .io => fatalError .invalidUtf8

namespace Framer

/-- The arm of `octet_decode` for a space within the limit. The end of the frame
is the exact sum; see `slice_wrapping` for the machine sum. -/
def octetFrame (limits : Limits) (framer : Framer) (spacePos : ℕ) (src : Bytes) :
    Except Trap (Reply × Framer × Bytes) :=
  match headerLength limits.wordSize (src.take spacePos) with
  | none =>
    (advance (spacePos + 1) src).map (fun rest =>
      (.error (fatalError .invalidLength), { framer with octetDecoding := none }, rest))
  | some len =>
    let start := spacePos + 1
    let stop := start + len
    if limits.maxLength < len then
      (advance (spacePos + 1) src).map
        (fun rest => (.ok none, { framer with octetDecoding := some (.discarding len) }, rest))
    else if stop ≤ src.length then
      let msg := (src.take stop).drop start
      (advance stop src).map
        (fun rest => (if fromUtf8 msg then .ok (some msg) else .error (fatalError .invalidUtf8),
          { framer with octetDecoding := none }, rest))
    else .ok (.ok none, framer, src)

/-- The remaining arms of `octet_decode` in `NotDiscarding`: no usable space yet. -/
def octetHeader (limits : Limits) (framer : Framer) (src : Bytes) :
    Except Trap (Reply × Framer × Bytes) :=
  match position newline src with
  | some newlinePos =>
    (advance (newlinePos + 1) src).map
      (fun rest => (.error (fatalError .oversize), framer, rest))
  | none =>
    if src.length < limits.maxLength then .ok (.ok none, framer, src)
    else
      (advance src.length src).map
        (fun rest => (.ok none, { framer with octetDecoding := some .discardingToEol }, rest))

def octetDecode (limits : Limits) (framer : Framer) (state : State) (src : Bytes) :
    Except Trap (Reply × Framer × Bytes) :=
  match state, position newline src, position space src with
  | .discarding chars, _, _ =>
    if chars ≤ src.length then
      (advance chars src).map
        (fun rest => (.error (fatalError .oversize), { framer with octetDecoding := none }, rest))
    else
      (advance src.length src).map
        (fun rest => (.ok none,
          { framer with octetDecoding := some (.discarding (chars - src.length)) }, rest))
  | .discardingToEol, some offset, _ =>
    (advance (offset + 1) src).map
      (fun rest => (.error (fatalError .oversize), { framer with octetDecoding := none }, rest))
  | .discardingToEol, none, _ =>
    (advance src.length src).map (fun rest => (.ok none, framer, rest))
  | .notDiscarding, _, some spacePos =>
    if spacePos < limits.maxLength then octetFrame limits framer spacePos src
    else octetHeader limits framer src
  | .notDiscarding, _, none => octetHeader limits framer src

/-- The mode choice at the top of `checked_decode`. -/
def enter (framer : Framer) (src : Bytes) : Framer :=
  if framer.octetDecoding = none ∧ digitLed src then
    { framer with octetDecoding := some .notDiscarding }
  else framer

/-- No value if this buffer is not octet counting encoded. -/
def checkedDecode (limits : Limits) (framer : Framer) (src : Bytes) :
    Option (Except Trap (Reply × Framer × Bytes)) :=
  (framer.enter src).octetDecoding.map
    (fun state => octetDecode limits (framer.enter src) state src)

/-- `decode` and `decode_eof` differ only in what they ask of the line codec. -/
def decodeVia (line : LinesCodec → Bytes → Except Trap (LinesReply × LinesCodec × Bytes))
    (limits : Limits) (framer : Framer) (src : Bytes) :
    Except Trap (Reply × Framer × Bytes) :=
  match checkedDecode limits framer src with
  | some result => result
  | none =>
    (line framer.other src).map
      (fun out => (out.1.mapError lineError, { framer with other := out.2.1 }, out.2.2))

def decode (limits : Limits) : Framer → Bytes → Except Trap (Reply × Framer × Bytes) :=
  decodeVia (LinesCodec.decode limits.maxLength) limits

def decodeEof (limits : Limits) : Framer → Bytes → Except Trap (Reply × Framer × Bytes) :=
  decodeVia (LinesCodec.decodeEof limits.maxLength) limits

/-- On a buffer shorter than a word, slicing to the wrapped end of a frame
succeeds exactly when slicing to its exact end does. -/
theorem slice_wrapping {w start len size : ℕ} (hs : size < 2 ^ w) (hl : len < 2 ^ w)
    (hst : start ≤ size) :
    (start ≤ (start + len) % 2 ^ w ∧ (start + len) % 2 ^ w ≤ size) ↔ start + len ≤ size := by
  by_cases h : start + len < 2 ^ w
  · rw [Nat.mod_eq_of_lt h]
    omega
  · rw [Nat.mod_eq_sub_mod (by omega), Nat.mod_eq_of_lt (by omega)]
    omega

/-- Everything one call of `octet_decode` can do: the reply, the next octet state
and the bytes left, arm by arm. -/
inductive OctetStep (limits : Limits) : State → Bytes → Reply → Option State → Bytes → Prop where
  | skipped (body rest : Bytes) :
      OctetStep limits (.discarding body.length) (body ++ rest)
        (.error (fatalError .oversize)) none rest
  | skipping (chars : ℕ) (src : Bytes) (short : src.length < chars) :
      OctetStep limits (.discarding chars) src
        (.ok none) (some (.discarding (chars - src.length))) []
  | resynced (p rest : Bytes) (line : newline ∉ p) :
      OctetStep limits .discardingToEol (p ++ newline :: rest)
        (.error (fatalError .oversize)) none rest
  | unsynced (src : Bytes) (line : newline ∉ src) :
      OctetStep limits .discardingToEol src (.ok none) (some .discardingToEol) []
  | badLength (digits rest : Bytes) (token : space ∉ digits)
      (near : digits.length < limits.maxLength)
      (value : headerLength limits.wordSize digits = none) :
      OctetStep limits .notDiscarding (digits ++ space :: rest)
        (.error (fatalError .invalidLength)) none rest
  | tooLong (digits rest : Bytes) (len : ℕ) (token : space ∉ digits)
      (near : digits.length < limits.maxLength)
      (value : headerLength limits.wordSize digits = some len) (big : limits.maxLength < len) :
      OctetStep limits .notDiscarding (digits ++ space :: rest)
        (.ok none) (some (.discarding len)) rest
  | complete (digits msg rest : Bytes) (token : space ∉ digits)
      (near : digits.length < limits.maxLength)
      (value : headerLength limits.wordSize digits = some msg.length)
      (fits : msg.length ≤ limits.maxLength) :
      OctetStep limits .notDiscarding (digits ++ space :: (msg ++ rest))
        (if fromUtf8 msg then .ok (some msg) else .error (fatalError .invalidUtf8)) none rest
  | incomplete (digits body : Bytes) (len : ℕ) (token : space ∉ digits)
      (near : digits.length < limits.maxLength)
      (value : headerLength limits.wordSize digits = some len)
      (fits : len ≤ limits.maxLength) (short : body.length < len) :
      OctetStep limits .notDiscarding (digits ++ space :: body)
        (.ok none) (some .notDiscarding) (digits ++ space :: body)
  | overrun (p rest : Bytes) (line : newline ∉ p)
      (far : space ∉ (p ++ newline :: rest).take limits.maxLength) :
      OctetStep limits .notDiscarding (p ++ newline :: rest)
        (.error (fatalError .oversize)) (some .notDiscarding) rest
  | waiting (src : Bytes) (line : newline ∉ src) (far : space ∉ src.take limits.maxLength)
      (room : src.length < limits.maxLength) :
      OctetStep limits .notDiscarding src (.ok none) (some .notDiscarding) src
  | flooded (src : Bytes) (line : newline ∉ src) (far : space ∉ src.take limits.maxLength)
      (full : limits.maxLength ≤ src.length) :
      OctetStep limits .notDiscarding src (.ok none) (some .discardingToEol) []

theorem split_at {n : ℕ} {src : Bytes} (h : n ≤ src.length) :
    ∃ body rest, src = body ++ rest ∧ body.length = n :=
  ⟨src.take n, src.drop n, (List.take_append_drop n src).symm, by simpa using h⟩

theorem octetFrame_step {limits : Limits} {framer : Framer} {digits rest : Bytes}
    (hf : framer.octetDecoding = some .notDiscarding) (token : space ∉ digits)
    (near : digits.length < limits.maxLength) :
    ∃ reply state left,
      octetFrame limits framer digits.length (digits ++ space :: rest) =
        .ok (reply, { framer with octetDecoding := state }, left) ∧
      OctetStep limits .notDiscarding (digits ++ space :: rest) reply state left := by
  have htake : (digits ++ space :: rest).take digits.length = digits := List.take_left
  have hdrop := drop_split space digits rest
  have hadv := advance_split space digits rest
  rw [octetFrame, htake]
  cases hv : headerLength limits.wordSize digits with
  | none => exact ⟨_, _, _, by rw [hadv]; rfl, .badLength digits rest token near hv⟩
  | some len =>
    by_cases hbig : limits.maxLength < len
    · simp only [if_pos hbig, hadv]
      exact ⟨_, _, _, rfl, .tooLong digits rest len token near hv hbig⟩
    · simp only [if_neg hbig]
      by_cases hlen : digits.length + 1 + len ≤ (digits ++ space :: rest).length
      · have hfit : len ≤ rest.length := by
          rw [List.length_append, List.length_cons] at hlen
          omega
        obtain ⟨msg, tail, rfl, rfl⟩ := split_at hfit
        have hstop : (digits ++ space :: (msg ++ tail)).drop (digits.length + 1 + msg.length) =
            tail := by
          rw [← List.drop_drop, hdrop, List.drop_left]
        have hmsg : ((digits ++ space :: (msg ++ tail)).take
            (digits.length + 1 + msg.length)).drop (digits.length + 1) = msg := by
          rw [List.drop_take, hdrop, Nat.add_sub_cancel_left, List.take_left]
        rw [if_pos hlen, advance_of_le hlen, hstop, hmsg]
        exact ⟨_, _, _, rfl, .complete digits msg tail token near hv (by omega)⟩
      · rw [if_neg hlen]
        rw [List.length_append, List.length_cons] at hlen
        refine ⟨_, _, _, ?_, .incomplete digits rest len token near hv (by omega) (by omega)⟩
        rw [← hf]

theorem octetHeader_step {limits : Limits} {framer : Framer} {src : Bytes}
    (hf : framer.octetDecoding = some .notDiscarding)
    (far : space ∉ src.take limits.maxLength) :
    ∃ reply state left,
      octetHeader limits framer src = .ok (reply, { framer with octetDecoding := state }, left) ∧
      OctetStep limits .notDiscarding src reply state left := by
  rw [octetHeader]
  cases hn : position newline src with
  | some n =>
    obtain ⟨p, rest, rfl, hp, rfl⟩ := position_eq_some.mp hn
    simp only [advance_split]
    refine ⟨_, _, rest, ?_, .overrun p rest hp far⟩
    rw [← hf]
    rfl
  | none =>
    have hline := position_eq_none.mp hn
    by_cases hroom : src.length < limits.maxLength
    · simp only [if_pos hroom]
      refine ⟨_, _, _, ?_, .waiting src hline far hroom⟩
      rw [← hf]
    · simp only [if_neg hroom, advance_of_le le_rfl, List.drop_length]
      exact ⟨_, _, _, rfl, .flooded src hline far (by omega)⟩

/-- No call of `octet_decode` advances out of range, and each does one of the listed steps. -/
theorem octetDecode_step (limits : Limits) {framer : Framer} {state : State} (src : Bytes)
    (hf : framer.octetDecoding = some state) :
    ∃ reply next left,
      octetDecode limits framer state src =
        .ok (reply, { framer with octetDecoding := next }, left) ∧
      OctetStep limits state src reply next left := by
  cases state with
  | discarding chars =>
    by_cases h : chars ≤ src.length
    · obtain ⟨body, rest, rfl, rfl⟩ := split_at h
      refine ⟨_, _, rest, ?_, .skipped body rest⟩
      simp [octetDecode, advance_of_le h, Except.map]
    · refine ⟨_, _, [], ?_, .skipping chars src (by omega)⟩
      simp [octetDecode, h, advance_of_le le_rfl, Except.map]
  | discardingToEol =>
    cases hn : position newline src with
    | some n =>
      obtain ⟨p, rest, rfl, hp, rfl⟩ := position_eq_some.mp hn
      refine ⟨_, _, rest, ?_, .resynced p rest hp⟩
      simp [octetDecode, hn, advance_split, Except.map]
    | none =>
      refine ⟨_, _, [], ?_, .unsynced src (position_eq_none.mp hn)⟩
      simp [octetDecode, hn, advance_of_le le_rfl, Except.map, ← hf]
  | notDiscarding =>
    cases hs : position space src with
    | some q =>
      obtain ⟨digits, rest, rfl, hd, rfl⟩ := position_eq_some.mp hs
      by_cases hq : digits.length < limits.maxLength
      · simpa only [octetDecode, hs, if_pos hq] using octetFrame_step hf hd hq
      · simp only [octetDecode, hs, if_neg hq]
        apply octetHeader_step hf
        rw [List.take_append_of_le_length (by omega)]
        exact fun h => hd (List.mem_of_mem_take h)
    | none =>
      simp only [octetDecode, hs]
      exact octetHeader_step hf (fun h => position_eq_none.mp hs (List.mem_of_mem_take h))

@[simp] theorem enter_other (framer : Framer) (src : Bytes) :
    (framer.enter src).other = framer.other := by
  unfold enter
  split <;> rfl

theorem enter_of_some {framer : Framer} {state : State} (h : framer.octetDecoding = some state)
    (src : Bytes) : framer.enter src = framer := if_neg (by simp [h])

theorem enter_of_digit {framer : Framer} {src : Bytes} (h : framer.octetDecoding = none)
    (hd : digitLed src = true) :
    framer.enter src = { framer with octetDecoding := some .notDiscarding } := if_pos ⟨h, hd⟩

theorem enter_of_line {framer : Framer} {src : Bytes} (hd : digitLed src = false) :
    framer.enter src = framer := if_neg (by simp [hd])

theorem enter_some {framer : Framer} {src : Bytes} {state : State}
    (h : (framer.enter src).octetDecoding = some state) :
    framer.octetDecoding = some state ∨
      (state = .notDiscarding ∧ framer.octetDecoding = none ∧ digitLed src = true) := by
  unfold enter at h
  split_ifs at h with hdigit
  · cases h
    exact .inr ⟨rfl, hdigit⟩
  · exact .inl h

section Via
variable (limits : Limits) {framer : Framer} {src : Bytes}
  (line : LinesCodec → Bytes → Except Trap (LinesReply × LinesCodec × Bytes))

theorem decodeVia_octet {state : State} (h : (framer.enter src).octetDecoding = some state) :
    ∃ reply next left,
      decodeVia line limits framer src =
        .ok (reply, { framer with octetDecoding := next }, left) ∧
      OctetStep limits state src reply next left := by
  obtain ⟨reply, next, left, he, hstep⟩ := octetDecode_step limits src h
  refine ⟨reply, next, left, ?_, hstep⟩
  rw [decodeVia, checkedDecode, h, Option.map_some]
  simpa using he

theorem decodeVia_line (h : (framer.enter src).octetDecoding = none) :
    decodeVia line limits framer src =
      (line framer.other src).map
        (fun out => (out.1.mapError lineError, { framer with other := out.2.1 }, out.2.2)) := by
  rw [decodeVia, checkedDecode, h, Option.map_none]

variable {limits}

theorem octetStep_fatal {state : State} {error : FrameError} {next : Option State}
    {left : Bytes} (h : OctetStep limits state src (.error error) next left) :
    error.fatal = true := by
  generalize hr : (Except.error error : Reply) = reply at h
  cases h
  case complete => split_ifs at hr; cases hr; rfl
  all_goals cases hr; try rfl

/-- No octet step adds bytes, and one that delivers a message removes some. -/
theorem octetStep_length {state : State} {reply : Reply} {next : Option State} {left : Bytes}
    (h : OctetStep limits state src reply next left) :
    left.length ≤ src.length ∧ ∀ msg, reply = .ok (some msg) → left.length < src.length := by
  cases h with
  | incomplete => simp
  | waiting => simp
  | skipped => simp
  | skipping => simp
  | unsynced => simp
  | flooded => simp
  | resynced | badLength | tooLong | complete | overrun =>
    simp only [List.length_append, List.length_cons]
    exact ⟨by omega, fun _ _ => by omega⟩

end Via
theorem decode_nil (limits : Limits) : new.decode limits [] = .ok (.ok none, new, []) := by
  simp [decode, decodeVia, checkedDecode, enter, new, digitLed, LinesCodec.decode,
    LinesCodec.decodeLoop, LinesCodec.new, position, Except.map, Except.mapError]

end Framer
end HyperRuby.Framing
