import HyperRuby.Framing.Cursor
import HyperRuby.Framing.InnerLoop
import HyperRuby.Framing.Trace

/-! # What is reported as oversize

A rejection for its size should come from a frame beyond the limit: a counted frame, seen from
the byte at which octet counting was entered, or a line. Three kinds of call report a frame that
is not: one that finds a newline where the header of a counted frame should go on, one that has
its search cursor behind a newline, and one that drops the rest of a line and takes the counted
frame behind it for the next line.
-/
namespace HyperRuby.Framing
open Library

/-- The bytes start with a line that does not end within the limit. -/
def LongLine (maxLength : ℕ) (bytes : Bytes) : Prop :=
  maxLength < bytes.length ∧ newline ∉ bytes.take (maxLength + 1)

/-- A newline before the limit, and no space to end a header with. -/
def ShortHeader (limits : Limits) (src : Bytes) : Prop :=
  (∃ p ∈ position newline src, p < limits.maxLength) ∧ space ∉ src.take limits.maxLength

theorem newline_not_mem_of_parseDigits {w value n : ℕ} {s : Bytes}
    (h : parseDigits w value s = some n) : newline ∉ s := by
  induction s generalizing value with
  | nil => simp
  | cons b s ih =>
    rw [parseDigits] at h
    split at h
    · cases h
    · rename_i d hd
      split_ifs at h
      have hb : newline ≠ b := by
        rintro rfl
        cases hd
      simp [hb, ih h]

theorem newline_not_mem_of_headerLength {w len : ℕ} {digits : Bytes}
    (h : headerLength w digits = some len) : newline ∉ digits := by
  unfold headerLength at h
  split_ifs at h
  unfold parseUsize at h
  split at h
  · cases h
  · rename_i b s
    split_ifs at h with hsign
    · subst hsign
      have hs := newline_not_mem_of_parseDigits h
      simpa [newline] using hs
    · exact newline_not_mem_of_parseDigits h

theorem ShortHeader.not_longFrame {limits : Limits} {src : Bytes} (h : ShortHeader limits src)
    (more : Bytes) : ¬ LongFrame limits (src ++ more) := by
  obtain ⟨⟨n, hn, hnear⟩, hspace⟩ := h
  obtain ⟨p, rest, rfl, hp, rfl⟩ := position_eq_some.mp hn
  obtain ⟨r, hr⟩ := take_split hnear rest
  rw [hr] at hspace
  rw [List.append_assoc, List.cons_append]
  intro hlong
  generalize hbytes : p ++ newline :: (rest ++ more) = bytes at hlong
  cases hlong with
  | declared digits rest' len lead token value big =>
    -- the space comes before the newline or behind it
    rcases split_cut hbytes.symm with ⟨t, rfl, -⟩ | ⟨t, rfl, ht⟩
    · exact newline_not_mem_of_headerLength value (by simp)
    · cases t with
      | nil => cases ht
      | cons b t =>
        cases ht
        simp at hspace
  | header run rest' lead long token line =>
    rcases split_cut hbytes.symm with ⟨t, rfl, -⟩ | ⟨t, rfl, -⟩
    · simp at line
    · rw [List.length_append] at hnear
      omega

/-- The bytes start with a counted frame whose header is within the limit and declares no length
beyond it, if it declares one at all. -/
def ModestFrame (limits : Limits) (bytes : Bytes) : Prop :=
  digitLed bytes = true ∧ ∃ digits rest, bytes = digits ++ space :: rest ∧ space ∉ digits ∧
    digits.length < limits.maxLength ∧
    ∀ len ∈ headerLength limits.wordSize digits, len ≤ limits.maxLength

theorem LongFrame.lead {limits : Limits} {bytes : Bytes} (h : LongFrame limits bytes) :
    digitLed bytes = true := by
  cases h with
  | declared digits rest len lead => exact lead
  | header run rest lead => exact lead

theorem ModestFrame.not_longFrame {limits : Limits} {bytes : Bytes} (h : ModestFrame limits bytes)
    (more : Bytes) : ¬ LongFrame limits (bytes ++ more) := by
  obtain ⟨-, digits, rest, rfl, htoken, hnear, hfits⟩ := h
  rw [List.append_assoc, List.cons_append]
  intro hlong
  generalize hbytes : digits ++ space :: (rest ++ more) = bytes at hlong
  cases hlong with
  | declared digits' rest' len lead token value big =>
    obtain ⟨rfl, -⟩ := split_unique hbytes htoken token
    exact absurd (hfits len value) (by omega)
  | header run rest' lead long token line =>
    rcases split_cut hbytes.symm with ⟨t, rfl, -⟩ | ⟨t, rfl, -⟩
    · simp at token
    · rw [List.length_append] at hnear
      omega

/-- A counted frame whose first line does not end within the limit is beyond it, or modest. -/
theorem longFrame_of_not_modest {limits : Limits} {bytes : Bytes} (hlead : digitLed bytes = true)
    (hline : LongLine limits.maxLength bytes) (h : ¬ ModestFrame limits bytes) (more : Bytes) :
    LongFrame limits (bytes ++ more) := by
  obtain ⟨hlength, hnewline⟩ := hline
  by_cases hspace : space ∈ bytes.take limits.maxLength
  · obtain ⟨digits, r, hsplit, htoken⟩ := List.eq_append_cons_of_mem hspace
    have hnear : digits.length < limits.maxLength := by
      have hcut := congrArg List.length hsplit
      rw [List.length_take, List.length_append, List.length_cons] at hcut
      omega
    have hbytes : bytes = digits ++ space :: (r ++ bytes.drop limits.maxLength) := by
      conv_lhs => rw [← List.take_append_drop limits.maxLength bytes, hsplit]
      rw [List.append_assoc, List.cons_append]
    -- the header is read before the limit, so it has to declare a length beyond it
    obtain ⟨len, hvalue, hbig⟩ : ∃ len ∈ headerLength limits.wordSize digits,
        limits.maxLength < len := by
      by_contra hfits
      push Not at hfits
      exact h ⟨hlead, digits, _, hbytes, htoken, hnear, hfits⟩
    rw [← digitLed_append (ne_nil_of_digitLed hlead) more] at hlead
    rw [hbytes, List.append_assoc, List.cons_append] at hlead ⊢
    exact .declared digits _ len hlead htoken hvalue hbig
  · refine longFrame_of_far hlead hspace (fun hmem => hnewline ?_) (by omega) more
    exact List.take_subset_take_left _ (Nat.le_succ _) hmem

theorem utf8_ne_exceeded (line : Bytes) : utf8 line ≠ .error .maxLineLengthExceeded := by
  unfold utf8
  split_ifs <;> simp

/-- A call of the codec that reports an oversize line has looked at the whole buffer, from the
cursor on, or at what is behind the line it was dropping. -/
theorem LinesCodec.decode_exceeded {maxLength : ℕ} {codec codec' : LinesCodec} {buf rest : Bytes}
    (h : decode maxLength codec buf = .ok (.error .maxLineLengthExceeded, codec', rest)) :
    codec.nextIndex ≤ min (maxLength + 1) buf.length ∧
      ((codec.isDiscarding = false ∧ rest = buf ∧ maxLength < buf.length ∧
          newline ∉ (buf.take (maxLength + 1)).drop codec.nextIndex) ∨
        (codec.isDiscarding = true ∧ afterNewline (buf.drop codec.nextIndex) = some rest ∧
          LongLine maxLength rest)) := by
  refine ⟨cursor_le_of_decode h, ?_⟩
  cases hd : codec.isDiscarding with
  | false =>
    generalize hreply : (.error .maxLineLengthExceeded : LinesReply) = reply at h
    cases decode_scanned hd h with
    | line body => exact absurd hreply.symm (utf8_ne_exceeded _)
    | exceeded long ahead => exact .inl ⟨rfl, rfl, long, ahead⟩
    | waiting => cases hreply
  | true =>
    rcases decode_dropping hd h with ⟨-, hreply, -⟩ | ⟨line, hafter, hscan⟩
    · cases hreply
    · generalize hreply : (.error .maxLineLengthExceeded : LinesReply) = reply at hscan
      cases hscan with
      | line body => exact absurd hreply.symm (utf8_ne_exceeded _)
      | exceeded long ahead => exact .inr ⟨rfl, hafter, long, ahead⟩
      | waiting => cases hreply

theorem LinesCodec.decode_missed {maxLength : ℕ} {codec : LinesCodec} {buf : Bytes}
    (idle : codec.isDiscarding = false) (hcursor : codec.nextIndex ≤ maxLength + 1)
    (long : maxLength < buf.length)
    (hahead : newline ∉ (buf.take (maxLength + 1)).drop codec.nextIndex) :
    decode maxLength codec buf =
      .ok (.error .maxLineLengthExceeded, { codec with isDiscarding := true }, buf) := by
  have hsearch : position newline
      ((buf.take (min (maxLength + 1) buf.length)).drop codec.nextIndex) = none := by
    rw [take_readTo, position_eq_none]
    exact hahead
  rw [decode, decodeLoop]
  simp only [idle, hsearch, if_pos long, if_neg (show ¬ min (maxLength + 1) buf.length <
    codec.nextIndex by omega)]

theorem LinesCodec.decode_resumed {maxLength : ℕ} {codec : LinesCodec} {buf rest : Bytes}
    (dropping : codec.isDiscarding = true)
    (hcursor : codec.nextIndex ≤ min (maxLength + 1) buf.length)
    (hafter : afterNewline (buf.drop codec.nextIndex) = some rest)
    (hlong : LongLine maxLength rest) :
    decode maxLength codec buf = .ok (.error .maxLineLengthExceeded, ⟨0, true⟩, rest) := by
  rw [decode, decodeLoop_skip hcursor dropping (Nat.lt_succ_self _), skipLine, hafter]
  dsimp only
  rw [scanLine, position_eq_none.mpr hlong.2]
  simp only [if_pos hlong.1]

theorem LongLine.append {maxLength : ℕ} {bytes : Bytes} (h : LongLine maxLength bytes)
    (more : Bytes) : LongLine maxLength (bytes ++ more) := by
  obtain ⟨hlong, hline⟩ := h
  refine ⟨by rw [List.length_append]; omega, ?_⟩
  rw [List.take_append_of_le_length (by omega)]
  exact hline

theorem LongLine.digitLed_append {maxLength : ℕ} {bytes : Bytes} (h : LongLine maxLength bytes)
    (hlead : digitLed bytes = false) (more : Bytes) : digitLed (bytes ++ more) = false := by
  rw [Framing.digitLed_append (List.ne_nil_of_length_pos (Nat.zero_lt_of_lt h.1))]
  exact hlead

/-- A search from the cursor on is as good as one of the whole line if the cursor has passed no
newline. -/
theorem longLine_of_cursor {maxLength cursor : ℕ} {buf : Bytes} (hlong : maxLength < buf.length)
    (hahead : newline ∉ (buf.take (maxLength + 1)).drop cursor)
    (hbehind : newline ∉ buf.take cursor) : LongLine maxLength buf := by
  refine ⟨hlong, not_mem_of_take_drop (fun hbefore => hbehind ?_) hahead⟩
  rw [List.take_take] at hbefore
  exact List.take_subset_take_left _ (Nat.min_le_left _ _) hbefore

theorem octetStep_shortHeader {limits : Limits} {src left : Bytes} {reply : Reply}
    {next : Option State} (h : Framer.OctetStep limits .notDiscarding src reply next left)
    (hshort : ShortHeader limits src) : reply = .error (fatalError .oversize) := by
  obtain ⟨⟨n, hn, -⟩, hspace⟩ := hshort
  have hnear : ∀ {digits rest : Bytes}, digits.length < limits.maxLength →
      space ∈ (digits ++ space :: rest).take limits.maxLength := by
    intro digits rest hdigits
    obtain ⟨r, hr⟩ := take_split hdigits rest
    rw [hr]
    simp
  cases h with
  | badLength _ _ _ near => exact absurd (hnear near) hspace
  | tooLong _ _ _ _ near => exact absurd (hnear near) hspace
  | complete _ _ _ _ near => exact absurd (hnear near) hspace
  | incomplete _ _ _ _ near => exact absurd (hnear near) hspace
  | overrun => rfl
  | waiting _ line => exact absurd (position_eq_none.mpr line) (by rw [hn]; simp)
  | flooded _ line => exact absurd (position_eq_none.mpr line) (by rw [hn]; simp)

namespace Session
variable {limits : Limits} {s : Session}

/-- The next call reads the header of a counted frame and finds a short one. -/
def ReadsShortHeader (limits : Limits) (s : Session) : Prop :=
  (s.framer.enter s.buffer).octetDecoding = some .notDiscarding ∧ ShortHeader limits s.buffer

/-- The next call looks for the end of a line only behind it. -/
def MissesNewline (limits : Limits) (s : Session) : Prop :=
  (s.framer.enter s.buffer).octetDecoding = none ∧
    s.framer.other.isDiscarding = false ∧ s.framer.other.nextIndex ≤ limits.maxLength + 1 ∧
    limits.maxLength < s.buffer.length ∧ newline ∈ s.buffer.take s.framer.other.nextIndex ∧
    newline ∉ (s.buffer.take (limits.maxLength + 1)).drop s.framer.other.nextIndex

/-- The next call drops the rest of a line and takes the counted frame behind it for a line. -/
def ResumesAtFrame (limits : Limits) (s : Session) : Prop :=
  (s.framer.enter s.buffer).octetDecoding = none ∧ s.framer.other.isDiscarding = true ∧
    s.framer.other.nextIndex ≤ min (limits.maxLength + 1) s.buffer.length ∧
    ∃ rest, afterNewline (s.buffer.drop s.framer.other.nextIndex) = some rest ∧
      LongLine limits.maxLength rest ∧ ModestFrame limits rest

section Calls
variable {reply : Reply} {framer : Framer} {left : Bytes}

theorem call_of_rejected {error : FrameError} (hrun : s.status = .running)
    (h : (s.step limits).events = s.events ++ [.rejected error]) :
    ∃ framer left, s.call limits = .ok (.error error, framer, left) := by
  rw [step_running hrun] at h
  rcases hcall : s.call limits with trap | ⟨error' | _ | bytes, framer, left⟩
  · rw [hcall] at h
    simp [handle] at h
  · rw [hcall] at h
    obtain ⟨rfl⟩ : error' = error := by simpa [handle] using h
    exact ⟨framer, left, rfl⟩
  · rw [hcall, handle, read_events] at h
    simp at h
  · rw [hcall] at h
    simp [handle] at h

theorem rejected_of_call {error : FrameError} (hrun : s.status = .running)
    (hcall : s.call limits = .ok (.error error, framer, left)) :
    (s.step limits).events = s.events ++ [.rejected error] := by
  rw [step_running hrun, hcall]
  rfl

theorem call_of_exceeded {codec : LinesCodec}
    (mode : (s.framer.enter s.buffer).octetDecoding = none)
    (hdec : LinesCodec.decode limits.maxLength s.framer.other s.buffer =
      .ok (.error .maxLineLengthExceeded, codec, left)) :
    s.call limits =
      .ok (.error (recoverableError .oversize), { s.framer with other := codec }, left) := by
  rw [call]
  split
  · rw [Framer.decodeEof, Framer.decodeVia_line limits _ mode, LinesCodec.decodeEof, hdec]
    rfl
  · rw [Framer.decode, Framer.decodeVia_line limits _ mode, hdec]
    rfl

end Calls

/-- The next call reports a frame that is not beyond the limit. -/
def FalseOversize (limits : Limits) (s : Session) : Prop :=
  s.status = .running ∧
    (s.ReadsShortHeader limits ∨ s.MissesNewline limits ∨ s.ResumesAtFrame limits)

/-- A rejection for its size at step `n` is that of a frame beyond the limit: the counted frame
in hand, from its first byte on, or the frame that the call leaves in front of the stream, which
is a line unless it starts with a digit. -/
def OversizeCaused (limits : Limits) (run : ℕ → Session) (n : ℕ) : Prop :=
  ∀ error, (run (n + 1)).events = (run n).events ++ [.rejected error] →
    error.reason = .oversize →
    if error.fatal then ∃ m, Entered run m n ∧ LongFrame limits (run m).remaining
    else LongFrame limits (run (n + 1)).remaining ∨
      (digitLed (run (n + 1)).remaining = false ∧
        LongLine limits.maxLength (run (n + 1)).remaining)

section Cause
variable {run : ℕ → Session} {n : ℕ}

theorem caused_of_octet {state : State} {error : FrameError} {framer : Framer} {left : Bytes}
    (h : Traced limits run n) (hshort : ¬ (run n).ReadsShortHeader limits)
    (mode : ((run n).framer.enter (run n).buffer).octetDecoding = some state)
    (hcall : (run n).call limits = .ok (.error error, framer, left))
    (hreason : error.reason = .oversize) :
    error.fatal = true ∧ ∃ m, Entered run m n ∧ LongFrame limits (run m).remaining := by
  obtain ⟨reply, next, left', hoctet, hstep⟩ := call_octet limits mode
  obtain ⟨rfl, -⟩ : reply = .error error ∧ left' = left := by
    cases hoctet.symm.trans hcall
    exact ⟨rfl, rfl⟩
  refine ⟨Framer.octetStep_fatal hstep, ?_⟩
  have hbytes : (run n).remaining = (run n).buffer ++ (run n).unread.flatten := rfl
  generalize hr : (Except.error error : Reply) = reply at hstep
  generalize hsrc : (run n).buffer = src at hstep
  cases hstep with
  | skipped body rest => exact h.dropping_enter mode (by simp)
  | resynced p rest line => exact h.dropping_enter mode (by simp)
  | overrun p rest line far =>
    have hlead := (h.header_enter mode).1
    have hfull : limits.maxLength ≤ p.length := by
      by_contra hnear
      refine hshort ⟨mode, ⟨p.length, ?_, by omega⟩, by rw [hsrc]; exact far⟩
      rw [hsrc]
      exact position_split line
    rw [hsrc] at hlead
    apply h.long_enter mode
    rw [hbytes, hsrc]
    refine longFrame_of_far hlead far ?_ (by rw [List.length_append]; omega) _
    rw [List.take_append_of_le_length hfull]
    exact fun hmem => line (List.mem_of_mem_take hmem)
  | complete digits msg rest =>
    split_ifs at hr
    cases hr
    cases hreason
  | badLength =>
    cases hr
    cases hreason
  | skipping | unsynced | tooLong | incomplete | waiting | flooded => cases hr

variable (hrun : ∀ n, run (n + 1) = (run n).step limits)
include hrun

theorem oversizeCaused_of_not (h0 : (run 0).framer.octetDecoding = none)
    (hfalse : ¬ FalseOversize limits (run n)) : OversizeCaused limits run n := by
  intro error hevents hreason
  have hrunning : (run n).status = .running := by
    by_contra hstopped
    rw [hrun n, step_stopped hstopped] at hevents
    simp at hevents
  rw [hrun n] at hevents
  obtain ⟨framer, left, hcall⟩ := call_of_rejected hrunning hevents
  cases mode : ((run n).framer.enter (run n).buffer).octetDecoding with
  | some state =>
    obtain ⟨hfatal, hcause⟩ := caused_of_octet (run_traced hrun h0 n hrunning)
      (fun hshort => hfalse ⟨hrunning, .inl hshort⟩) mode hcall hreason
    rw [if_pos hfatal]
    exact hcause
  | none =>
    obtain ⟨rfl, codec, -, hdec⟩ := exceeded_of_call mode hcall (by rintro rfl; cases hreason)
    have hremaining := (step_left hrunning hcall).1
    rw [if_neg (by simp [recoverableError]), hrun n, hremaining]
    obtain ⟨hcursor, ⟨idle, rfl, long, hahead⟩ | ⟨dropping, hafter, hlong⟩⟩ :=
      LinesCodec.decode_exceeded hdec
    · have hline : LongLine limits.maxLength (run n).buffer := by
        refine longLine_of_cursor long hahead (fun hmem => ?_)
        exact hfalse ⟨hrunning, .inr (.inl ⟨mode, idle, by omega, long, hmem, hahead⟩)⟩
      exact .inr ⟨hline.digitLed_append (line_of_enter mode).2 _, hline.append _⟩
    · cases hlead : digitLed left with
      | false => exact .inr ⟨hlong.digitLed_append hlead _, hlong.append _⟩
      | true =>
        refine .inl (longFrame_of_not_modest hlead hlong (fun hmodest => ?_) _)
        exact hfalse
          ⟨hrunning, .inr (.inr ⟨mode, dropping, hcursor, left, hafter, hlong, hmodest⟩)⟩

theorem not_caused_of_shortHeader (h0 : (run 0).framer.octetDecoding = none)
    (hrunning : (run n).status = .running) (hshort : (run n).ReadsShortHeader limits) :
    ¬ OversizeCaused limits run n := by
  intro hcaused
  obtain ⟨mode, hheader⟩ := hshort
  obtain ⟨reply, next, left, hcall, hstep⟩ := call_octet limits mode
  rw [octetStep_shortHeader hstep hheader] at hcall
  have hevents := rejected_of_call hrunning hcall
  rw [← hrun n] at hevents
  -- the frame is the one whose header is being read, and that is short
  obtain ⟨m, hentered, hlong⟩ := hcaused _ hevents rfl
  obtain ⟨-, m', hentered', hsame⟩ := (run_traced hrun h0 n hrunning).header_enter mode
  rw [hentered.unique hentered', hsame] at hlong
  exact hheader.not_longFrame _ hlong

theorem not_caused_of_missed (hrunning : (run n).status = .running)
    (hmissed : (run n).MissesNewline limits) : ¬ OversizeCaused limits run n := by
  intro hcaused
  obtain ⟨mode, idle, hcursor, long, hbehind, hahead⟩ := hmissed
  have hcall := call_of_exceeded mode (LinesCodec.decode_missed idle hcursor long hahead)
  have hevents := rejected_of_call hrunning hcall
  rw [← hrun n] at hevents
  have hcause := hcaused _ hevents rfl
  rw [if_neg (by simp [recoverableError]), hrun n, (step_left hrunning hcall).1] at hcause
  rcases hcause with hframe | ⟨-, hlong⟩
  · have hlead := hframe.lead
    rw [digitLed_append (List.ne_nil_of_length_pos (by omega)), (line_of_enter mode).2] at hlead
    cases hlead
  · apply hlong.2
    rw [List.take_append_of_le_length (by omega)]
    exact List.take_subset_take_left _ hcursor hbehind

theorem not_caused_of_resumed (hrunning : (run n).status = .running)
    (hresumed : (run n).ResumesAtFrame limits) : ¬ OversizeCaused limits run n := by
  intro hcaused
  obtain ⟨mode, dropping, hcursor, rest, hafter, hlong, hmodest⟩ := hresumed
  have hcall := call_of_exceeded mode (LinesCodec.decode_resumed dropping hcursor hafter hlong)
  have hevents := rejected_of_call hrunning hcall
  rw [← hrun n] at hevents
  have hcause := hcaused _ hevents rfl
  rw [if_neg (by simp [recoverableError]), hrun n, (step_left hrunning hcall).1] at hcause
  rcases hcause with hframe | ⟨hlead, -⟩
  · exact hmodest.not_longFrame _ hframe
  · rw [digitLed_append (ne_nil_of_digitLed hmodest.1), hmodest.1] at hlead
    cases hlead

end Cause
end Session

-- a cursor left behind by the line before makes `\nxy\nzzzz` a line beyond four bytes
example : Session.FalseOversize ⟨64, 4, by decide⟩ ((Session.step ⟨64, 4, by decide⟩)^[4]
    (.start [[97, 97, 97, 97, 97, 97, 10, 51, 32, 97, 98], [99, 10, 120, 121, 10, 122, 122, 122,
      122]])) :=
  ⟨by decide, .inr (.inl ⟨by decide, by decide, by decide, by decide, by decide, by decide⟩)⟩

-- the frame `3 abc` behind a dropped line is reported before it is delivered
example : Session.FalseOversize ⟨64, 4, by decide⟩ ((Session.step ⟨64, 4, by decide⟩)^[2]
    (.start [[97, 97, 97, 97, 97, 97, 10, 51, 32, 97, 98, 99, 10]])) :=
  ⟨by decide, .inr (.inr ⟨by decide, by decide, by decide, [51, 32, 97, 98, 99, 10], by decide,
    ⟨by decide, by decide⟩, by decide, [51], [97, 98, 99, 10], rfl, by decide, by decide,
    by decide⟩)⟩

end HyperRuby.Framing
