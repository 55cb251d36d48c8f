import HyperRuby.Library.Emission
import HyperRuby.Framing.Cursor

/-! # What a stream means when it is read in one piece

The reference reads a stream with no buffer and no cursor: every result is a
function of the mode and of all the bytes that are still to come. Each decode
call of the framer agrees with it, whatever part of those bytes has arrived,
except for the three calls that look at where the reads were cut.
-/
namespace HyperRuby.Framing
open Library

/-- What the next bytes are part of. -/
inductive Mode where
  | fresh
  | header
  | line
  | body (chars : ℕ)
  | eol
  | closed
  deriving DecidableEq, Repr

abbrev Outlook := Option (Event × Mode × Bytes)

def rejectFatal (reason : RejectReason) : Outlook :=
  some (.rejected (fatalError reason), .closed, [])

def verdict (message rest : Bytes) : Outlook :=
  if fromUtf8 message then some (.message message, .fresh, rest) else rejectFatal .invalidUtf8

def bodyNext (chars : ℕ) (stream : Bytes) : Outlook :=
  if chars ≤ stream.length then rejectFatal .oversize else none

def eolNext (stream : Bytes) : Outlook :=
  if newline ∈ stream then rejectFatal .oversize else none

/-- The frame a length announces, once its bytes are there. -/
def frameNext (limits : Limits) (len : ℕ) (stream : Bytes) : Outlook :=
  if limits.maxLength < len then bodyNext len stream
  else if len ≤ stream.length then verdict (stream.take len) (stream.drop len)
  else none

def headerNext (limits : Limits) (stream : Bytes) : Outlook :=
  match position space (stream.take limits.maxLength) with
  | some p =>
    match headerLength limits.wordSize (stream.take p) with
    | some len => frameNext limits len (stream.drop (p + 1))
    | none => rejectFatal .invalidLength
  | none => eolNext stream

/-- A line, which at the end of the stream may lack its newline. -/
def lineNext (limits : Limits) (stream : Bytes) : Outlook :=
  match position newline (stream.take (limits.maxLength + 1)) with
  | some p => verdict (withoutCarriageReturn (stream.take p)) (stream.drop (p + 1))
  | none =>
    if limits.maxLength < stream.length then
      some (.rejected (recoverableError .oversize), .line, stream)
    else if stream = [] ∨ stream = [carriageReturn] then none
    else verdict (withoutCarriageReturn stream) []

/-- A frame is octet counted or a line by its own first byte. -/
def freshNext (limits : Limits) (stream : Bytes) : Outlook :=
  if digitLed stream then headerNext limits stream else lineNext limits stream

/-- The next result of a stream and what is left behind it. -/
def next (limits : Limits) : Mode × Bytes → Outlook
  | (.fresh, stream) => freshNext limits stream
  | (.header, stream) => headerNext limits stream
  | (.line, stream) => (afterNewline stream).bind (freshNext limits)
  | (.body chars, stream) => bodyNext chars stream
  | (.eol, stream) => eolNext stream
  | (.closed, _) => none

def State.mode : State → Mode
  | .notDiscarding => .header
  | .discarding chars => .body chars
  | .discardingToEol => .eol

def LinesCodec.mode (codec : LinesCodec) : Mode := if codec.isDiscarding then .line else .fresh

def Framer.mode (framer : Framer) : Mode :=
  (framer.octetDecoding.map State.mode).getD framer.other.mode

/-- A reply agrees with the reference: it is silent and leaves the next result alone, or it
is that result. -/
def Agrees (limits : Limits) (before : Mode × Bytes) (reply : Reply) (after : Mode × Bytes) :
    Prop :=
  match reply with
  | .ok none => next limits after = next limits before
  | .ok (some message) => next limits before = some (.message message, after)
  | .error error =>
    next limits before = some (.rejected error, if error.fatal then (.closed, []) else after)

theorem Agrees.congr {limits : Limits} {before before' after : Mode × Bytes} {reply : Reply}
    (he : next limits before = next limits before') (h : Agrees limits before reply after) :
    Agrees limits before' reply after := by
  unfold Agrees at h ⊢
  rw [← he]
  exact h

theorem next_line (limits : Limits) (stream : Bytes) :
    next limits (.line, stream) = (afterNewline stream).bind (freshNext limits) := rfl

section Octet
variable {limits : Limits}

theorem headerNext_space {digits : Bytes} (token : space ∉ digits)
    (near : digits.length < limits.maxLength) (rest : Bytes) :
    headerNext limits (digits ++ space :: rest) =
      match headerLength limits.wordSize digits with
      | some len => frameNext limits len rest
      | none => rejectFatal .invalidLength := by
  have hpos : position space ((digits ++ space :: rest).take limits.maxLength) =
      some digits.length := by
    rcases take_split near rest with ⟨rest', htake⟩
    rw [htake]
    exact position_split token
  have hdrop := drop_split space digits rest
  rw [headerNext, hpos]
  simp only [List.take_left, hdrop]

theorem headerNext_far {stream : Bytes} (far : space ∉ stream.take limits.maxLength) :
    headerNext limits stream = eolNext stream := by
  rw [headerNext, position_eq_none.mpr far]

theorem eolNext_skip {src : Bytes} (line : newline ∉ src) (more : Bytes) :
    eolNext (src ++ more) = eolNext more := by
  simp [eolNext, line]

theorem bodyNext_skip {src : Bytes} {chars : ℕ} (short : src.length < chars) (more : Bytes) :
    bodyNext chars (src ++ more) = bodyNext (chars - src.length) more := by
  simp only [bodyNext, List.length_append]
  congr 1
  apply propext
  omega

/-- Every call of the octet decoder agrees with the reference, except one that meets a
newline while the space of its header is still to come. -/
theorem octetStep_agrees {state : State} {src left : Bytes} {reply : Reply} {after : Option State}
    (h : Framer.OctetStep limits state src reply after left) (more : Bytes)
    (hsplit : state = .notDiscarding → newline ∈ src → space ∉ src.take limits.maxLength →
      space ∉ (src ++ more).take limits.maxLength) :
    Agrees limits (state.mode, src ++ more) reply
      ((after.map State.mode).getD .fresh, left ++ more) := by
  cases h with
  | skipped body => simp [Agrees, next, State.mode, bodyNext, rejectFatal, fatalError]
  | skipping chars _ short => exact (bodyNext_skip short more).symm
  | resynced p => simp [Agrees, next, State.mode, eolNext, rejectFatal, fatalError]
  | unsynced _ line => exact (eolNext_skip line more).symm
  | badLength digits _ token near value =>
    have hn := headerNext_space token near (left ++ more)
    rw [value] at hn
    simpa [Agrees, next, State.mode, rejectFatal, fatalError] using hn
  | tooLong digits _ len token near value big =>
    have hn := headerNext_space token near (left ++ more)
    rw [value] at hn
    simpa [Agrees, next, State.mode, frameNext, big] using hn.symm
  | complete digits msg _ token near value fits =>
    have hn := headerNext_space token near (msg ++ (left ++ more))
    rw [value] at hn
    simp only [frameNext, if_neg (not_lt.mpr fits), List.length_append, Nat.le_add_right, if_true,
      List.take_left, List.drop_left, verdict] at hn
    cases hu : fromUtf8 msg with
    | true => simpa [Agrees, next, State.mode, hu] using hn
    | false => simpa [Agrees, next, State.mode, hu, rejectFatal, fatalError] using hn
  | incomplete => rfl
  | overrun p _ line far =>
    have hn := headerNext_far (hsplit rfl (by simp) far)
    simpa [Agrees, next, State.mode, eolNext, rejectFatal, fatalError] using hn
  | waiting => rfl
  | flooded _ line far full =>
    have hfar : space ∉ (src ++ more).take limits.maxLength := by
      rwa [List.take_append_of_le_length full]
    exact ((headerNext_far hfar).trans (eolNext_skip line more)).symm

end Octet

section Line
variable {limits : Limits}

theorem freshNext_line {stream : Bytes} (h : digitLed stream = false) :
    freshNext limits stream = lineNext limits stream := by
  simp [freshNext, h]

theorem utf8_agrees {before : Mode × Bytes} {message rest : Bytes}
    (h : next limits before = verdict message rest) :
    Agrees limits before ((utf8 message).mapError lineError) (.fresh, rest) := by
  rw [verdict] at h
  rw [utf8]
  split_ifs at h ⊢
  · exact h
  · exact h

theorem scanLine_agrees {buf : Bytes} (cursor : ℕ) (hd : digitLed buf = false) (more : Bytes) :
    Agrees limits (.fresh, buf ++ more)
      ((LinesCodec.scanLine limits.maxLength cursor buf).1.mapError lineError)
      ((LinesCodec.scanLine limits.maxLength cursor buf).2.1.mode,
        (LinesCodec.scanLine limits.maxLength cursor buf).2.2 ++ more) := by
  have htake : (buf ++ more).take (limits.maxLength + 1) =
      buf.take (limits.maxLength + 1) ++ more.take (limits.maxLength + 1 - buf.length) :=
    List.take_append
  cases hp : position newline (buf.take (limits.maxLength + 1)) with
  | some p =>
    have hlt : p < buf.length := lt_of_lt_of_le (position_lt hp) (List.length_take_le' _ _)
    have hne : buf ≠ [] := by rintro rfl; simp at hlt
    have hpos : position newline ((buf ++ more).take (limits.maxLength + 1)) = some p := by
      rw [htake]
      exact position_append_left hp _
    have hn : next limits (.fresh, buf ++ more) =
        verdict (withoutCarriageReturn (buf.take p)) (buf.drop (p + 1) ++ more) := by
      rw [next, freshNext_line (by rwa [digitLed_append hne]), lineNext, hpos]
      simp only [List.take_append_of_le_length hlt.le, List.drop_append_of_le_length hlt]
    simp only [LinesCodec.scanLine, hp]
    exact utf8_agrees hn
  | none =>
    simp only [LinesCodec.scanLine, hp]
    split_ifs with hlong
    · have hne : buf ≠ [] := by rintro rfl; simp at hlong
      have hpos : position newline ((buf ++ more).take (limits.maxLength + 1)) = none := by
        rwa [List.take_append_of_le_length hlong]
      have hlen : limits.maxLength < (buf ++ more).length := by
        rw [List.length_append]
        omega
      change next limits (.fresh, buf ++ more) = _
      rw [next, freshNext_line (by rwa [digitLed_append hne]), lineNext, hpos]
      simp only [if_pos hlen]
      rfl
    · rfl

theorem readLine_agrees {codec : LinesCodec} {buf : Bytes} (hd : digitLed buf = false)
    (hcut : codec.isDiscarding = true → ∀ rest ∈ afterNewline buf, digitLed rest = false)
    (more : Bytes) :
    Agrees limits (codec.mode, buf ++ more)
      ((codec.readLine limits.maxLength buf).1.mapError lineError)
      ((codec.readLine limits.maxLength buf).2.1.mode,
        (codec.readLine limits.maxLength buf).2.2 ++ more) := by
  rw [LinesCodec.readLine, LinesCodec.mode]
  cases hdis : codec.isDiscarding with
  | false => exact scanLine_agrees codec.nextIndex hd more
  | true =>
    simp only [if_true, LinesCodec.skipLine]
    cases hrest : afterNewline buf with
    | some rest =>
      apply Agrees.congr _ (scanLine_agrees 0 (hcut hdis rest hrest) more)
      rcases afterNewline_eq_some.mp hrest with ⟨p, rfl, hp⟩
      rw [next_line, List.append_assoc, List.cons_append, afterNewline_split hp]
      rfl
    | none =>
      change next limits (.line, more) = next limits (.line, buf ++ more)
      rw [next_line, next_line, afterNewline_skip (afterNewline_eq_none.mp hrest)]

end Line
end HyperRuby.Framing
