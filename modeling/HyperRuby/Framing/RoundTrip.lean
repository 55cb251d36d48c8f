import HyperRuby.Framing.Chunking

/-! # Well-formed streams come back as their messages

A frame is an octet counted message or a line that the framer can carry. Streams
of such frames, in any order and cut anywhere, are read back message by message
with nothing left over.
-/
namespace HyperRuby.Framing
open Library

/-- A frame within the limits, in one of the two encodings. -/
inductive Frame (limits : Limits) where
  | octet (message : Bytes) (nonempty : message ≠ []) (valid : fromUtf8 message = true)
      (fits : message.length ≤ limits.maxLength)
  | line (message : Bytes) (cr : Bool) (valid : fromUtf8 message = true)
      (single : newline ∉ message) (plain : digitLed message = false)
      (bare : cr = false → message.getLast? ≠ some carriageReturn)
      (fits : message.length + cr.toNat ≤ limits.maxLength)

namespace Frame
variable {limits : Limits}

def message : Frame limits → Bytes
  | .octet message _ _ _ => message
  | .line message _ _ _ _ _ _ => message

/-- What stands before the newline of a line. -/
def lineBody (message : Bytes) (cr : Bool) : Bytes :=
  message ++ if cr then [carriageReturn] else []

/-- A frame in front of the bytes that follow it. -/
def encode : Frame limits → Bytes → Bytes
  | .octet message _ _ _, rest => decimal message.length ++ space :: (message ++ rest)
  | .line message cr _ _ _ _ _, rest => lineBody message cr ++ newline :: rest

/-- The concatenated encodings. -/
def encodeAll (frames : List (Frame limits)) : Bytes := frames.foldr encode []

theorem withoutCarriageReturn_lineBody {message : Bytes} {cr : Bool}
    (bare : cr = false → message.getLast? ≠ some carriageReturn) :
    withoutCarriageReturn (lineBody message cr) = message := by
  cases cr with
  | true => simp [lineBody, withoutCarriageReturn]
  | false => simp [lineBody, withoutCarriageReturn, bare rfl]

theorem lineBody_length (message : Bytes) (cr : Bool) :
    (lineBody message cr).length = message.length + cr.toNat := by
  cases cr <;> simp [lineBody]

theorem newline_not_mem_lineBody {message : Bytes} (single : newline ∉ message) (cr : Bool) :
    newline ∉ lineBody message cr := by
  cases cr with
  | true =>
    rw [lineBody, List.mem_append, not_or]
    exact ⟨single, by decide⟩
  | false => simpa [lineBody] using single

theorem digitLed_line {message : Bytes} (plain : digitLed message = false) (cr : Bool)
    (rest : Bytes) : digitLed (lineBody message cr ++ newline :: rest) = false := by
  cases message with
  | nil =>
    cases cr with
    | true => exact (by decide : leadDigit carriageReturn = false)
    | false => exact leadDigit_newline
  | cons b message => exact plain

theorem next_encode (hm : 2 ≤ limits.maxLength) (frame : Frame limits) (rest : Bytes) :
    next limits (.fresh, frame.encode rest) = some (.message frame.message, .fresh, rest) := by
  cases frame with
  | octet message nonempty valid fits =>
    have h0 : message.length ≠ 0 := fun h => nonempty (List.length_eq_zero_iff.mp h)
    have hlead : digitLed (decimal message.length ++ space :: (message ++ rest)) = true := by
      rw [digitLed_append (decimal_ne_nil h0)]
      exact digitLed_decimal h0
    have hlen : headerLength limits.wordSize (decimal message.length) = some message.length := by
      rw [headerLength, fromUtf8_decimal, if_pos rfl]
      exact parseUsize_decimal h0 (lt_of_le_of_lt fits limits.representable)
    rw [next, encode, freshNext, if_pos hlead,
      headerNext_space (space_not_mem_decimal _) (decimal_length_lt h0 fits hm), hlen]
    simp [frameNext, verdict, valid, fits, Frame.message]
  | line message cr valid single plain bare fits =>
    have hpos : position newline
        ((lineBody message cr ++ newline :: rest).take (limits.maxLength + 1)) =
          some (lineBody message cr).length := by
      have hle : (lineBody message cr).length < limits.maxLength + 1 := by
        rw [lineBody_length]
        omega
      rcases take_split hle rest with ⟨rest', htake⟩
      rw [htake]
      exact position_split (newline_not_mem_lineBody single cr)
    have hdrop := drop_split newline (lineBody message cr) rest
    rw [next, encode, freshNext_line (digitLed_line plain cr rest), lineNext, hpos]
    simp only [List.take_left, hdrop, withoutCarriageReturn_lineBody bare, verdict, valid,
      if_true, Frame.message]

theorem next_encodeAll (hm : 2 ≤ limits.maxLength) (frame : Frame limits)
    (frames : List (Frame limits)) :
    next limits (.fresh, encodeAll (frame :: frames)) =
      some (.message frame.message, .fresh, encodeAll frames) :=
  next_encode hm frame (encodeAll frames)

theorem header_of_digitLed (hm : 2 ≤ limits.maxLength) {frames : List (Frame limits)}
    (hd : digitLed (encodeAll frames) = true) :
    ∃ digits rest, encodeAll frames = digits ++ space :: rest ∧
      newline ∉ digits ∧ digits.length < limits.maxLength := by
  cases frames with
  | nil => cases hd
  | cons frame frames =>
    cases frame with
    | octet message nonempty valid fits =>
      exact ⟨_, _, rfl, newline_not_mem_decimal _,
        decimal_length_lt (fun h => nonempty (List.length_eq_zero_iff.mp h)) fits hm⟩
    | line message cr valid single plain bare fits =>
      rw [encodeAll, List.foldr_cons, encode, digitLed_line plain] at hd
      cases hd

end Frame

namespace Session
variable {limits : Limits}

/-- A session in front of the frames that are still to be read. -/
structure Reading (frames : List (Frame limits)) (s : Session) : Prop where
  tidy : Tidy limits s
  running : s.status = .running
  stream : s.buffer ++ s.unread.flatten = Frame.encodeAll frames
  discard : s.framer.other.isDiscarding = false
  octet : s.framer.octetDecoding = none ∨ s.framer.octetDecoding = some .notDiscarding ∧
    digitLed (Frame.encodeAll frames) = true

/-- The session has read everything. -/
structure Finished (s : Session) : Prop where
  closed : s.status = .closed
  buffer : s.buffer = []
  unread : s.unread = []

section Reading
variable {frames : List (Frame limits)} {s : Session}

theorem Reading.outlook (h : Reading frames s) :
    next limits (s.framer.mode, s.buffer ++ s.unread.flatten) =
      next limits (.fresh, Frame.encodeAll frames) := by
  rw [h.stream]
  rcases h.octet with ho | ⟨ho, hd⟩
  · simp [Framer.mode, ho, LinesCodec.mode, h.discard]
  · simp [Framer.mode, ho, State.mode, next, freshNext, hd]

theorem Reading.enter (h : Reading frames s) {state : State}
    (he : (s.framer.enter s.buffer).octetDecoding = some state) :
    state = .notDiscarding ∧ digitLed (Frame.encodeAll frames) = true := by
  rcases h.octet with ho | ⟨ho, hd⟩
  · cases hb : digitLed s.buffer with
    | true =>
      rw [Framer.enter_of_digit ho hb] at he
      cases he
      rw [← h.stream, digitLed_append (ne_nil_of_digitLed hb)]
      exact ⟨rfl, hb⟩
    | false =>
      rw [Framer.enter_of_line hb, ho] at he
      cases he
  · rw [Framer.enter_of_some ho, ho] at he
    cases he
    exact ⟨rfl, hd⟩

/-- A well-formed stream never meets a cut-sensitive call. -/
theorem Reading.uncut (hm : 2 ≤ limits.maxLength) (h : Reading frames s) : Uncut limits s := by
  constructor
  · intro _ hdis
    rw [h.discard] at hdis
    cases hdis
  · intro he hnl hfar
    rcases Frame.header_of_digitLed hm (h.enter he).2 with ⟨digits, rest, hs, hclear, hnear⟩
    rw [← h.stream] at hs
    exfalso
    rcases split_cut hs with ⟨t, hb, -⟩ | ⟨t, hdig, -⟩
    · apply hfar
      rcases take_split hnear t with ⟨t', htake⟩
      rw [hb, htake]
      exact List.mem_append_right _ List.mem_cons_self
    · apply hclear
      rw [hdig]
      exact List.mem_append_left _ hnl

theorem octetStep_silent {src left : Bytes} {after : Option State}
    (h : Framer.OctetStep limits .notDiscarding src (.ok none) after left) :
    (after = some .notDiscarding ∧ left = src) ∨ (∃ chars, after = some (.discarding chars)) ∨
      after = some .discardingToEol := by
  generalize hr : (Except.ok none : Reply) = reply at h
  cases h with
  | incomplete => exact .inl ⟨rfl, rfl⟩
  | waiting => exact .inl ⟨rfl, rfl⟩
  | tooLong _ _ len => exact .inr (.inl ⟨len, rfl⟩)
  | flooded => exact .inr (.inr rfl)
  | complete => split_ifs at hr; cases hr
  | badLength | overrun => cases hr

theorem next_skipping {mode : Mode} (hmode : (∃ chars, mode = .body chars) ∨ mode = .eol)
    (stream message : Bytes) (after : Mode × Bytes) :
    next limits (mode, stream) ≠ some (.message message, after) := by
  rcases hmode with ⟨chars, rfl⟩ | rfl
  · simp only [next, bodyNext, rejectFatal]
    split_ifs <;> simp
  · simp only [next, eolNext, rejectFatal]
    split_ifs <;> simp

theorem lineOutcome_silent (h : Reading frames s)
    (ho : s.framer.octetDecoding = none) (hn : (s.lineOutcome limits).1 = .ok none) :
    (s.lineOutcome limits).2.1.isDiscarding = false ∧ (s.lineOutcome limits).2.2 = s.buffer := by
  rw [lineOutcome] at hn ⊢
  cases heof : s.eof with
  | false =>
    simp only [heof, Bool.false_eq_true, if_false, LinesCodec.readLine, h.discard] at hn ⊢
    rw [(LinesCodec.scanLine_none hn).2.2]
    exact ⟨rfl, rfl⟩
  | true =>
    rcases (h.tidy.drained h.running heof).2.line ho with ⟨hclear, hlen, -⟩
    simp only [heof, if_true, release_drained s.framer.other hclear hlen, h.discard,
      Bool.false_eq_true, if_false] at hn ⊢
    split_ifs at hn ⊢
    · exact ⟨rfl, rfl⟩
    · exact absurd hn (LinesCodec.utf8_ne_none _)

theorem Reading.quiet (hm : 2 ≤ limits.maxLength) (h : Reading frames s) {framer : Framer}
    {left : Bytes} (ha : Answers limits s (.ok none) framer left) :
    left = s.buffer ∧ framer.other.isDiscarding = false ∧
      (framer.octetDecoding = none ∨ framer.octetDecoding = some .notDiscarding ∧
        digitLed (Frame.encodeAll frames) = true) := by
  cases he : (s.framer.enter s.buffer).octetDecoding with
  | some state =>
    rcases h.enter he with ⟨rfl, hd⟩
    rcases call_octet limits he with ⟨reply, after, left', hcall, hstep⟩
    rw [ha.call] at hcall
    cases hcall
    cases frames with
    | nil => cases hd
    | cons frame frames =>
      have hag : next limits (_, left ++ s.unread.flatten) = _ := ha.agrees
      rw [h.outlook, Frame.next_encodeAll hm] at hag
      rcases octetStep_silent hstep with ⟨rfl, rfl⟩ | hskip
      · exact ⟨rfl, h.discard, .inr ⟨rfl, hd⟩⟩
      · exfalso
        apply next_skipping _ _ _ _ hag
        rcases hskip with ⟨chars, rfl⟩ | rfl
        · exact .inl ⟨chars, rfl⟩
        · exact .inr rfl
  | none =>
    rcases line_of_enter he with ⟨ho, hd⟩
    have hcall := call_line he h.tidy.steady.synced.inRange
    rw [ha.call] at hcall
    simp only [Except.ok.injEq, Prod.mk.injEq] at hcall
    rcases hcall with ⟨hreply, rfl, rfl⟩
    rcases lineOutcome_silent h ho (mapError_eq_none hreply.symm) with ⟨hdis, hleft⟩
    exact ⟨hleft, hdis, .inl ho⟩

theorem mode_fresh {framer : Framer} (h : framer.mode = .fresh) :
    framer.octetDecoding = none ∧ framer.other.isDiscarding = false := by
  cases ho : framer.octetDecoding with
  | some state =>
    rw [Framer.mode, ho] at h
    cases state <;> cases h
  | none =>
    refine ⟨rfl, ?_⟩
    cases hdis : framer.other.isDiscarding with
    | false => rfl
    | true => simp [Framer.mode, ho, LinesCodec.mode, hdis] at h

theorem Reading.read (h : Reading frames s) (hd : Drained limits s.framer s.buffer)
    (hq : s.eof = true → frames = []) :
    (Reading frames s.read ∧ s.read.events = s.events) ∨
      (frames = [] ∧ Finished s.read ∧ s.read.events = s.events) := by
  cases heof : s.eof with
  | true =>
    have hnil := (h.tidy.drained h.running heof).1
    have hs := h.stream
    rw [hnil, List.flatten_nil, List.append_nil, hq heof] at hs
    rw [read_eof heof]
    exact .inr ⟨hq heof, ⟨rfl, hs, hnil⟩, rfl⟩
  | false =>
    have htidy := (read_follows h.tidy h.running hd (by simp [heof])).2.2
    cases hu : s.unread with
    | nil =>
      rw [read_last heof hu] at htidy ⊢
      exact .inl ⟨⟨htidy, h.running, h.stream, h.discard, h.octet⟩, rfl⟩
    | cons chunk unread =>
      rw [read_chunk heof hu] at htidy ⊢
      refine .inl ⟨⟨htidy, h.running, ?_, h.discard, h.octet⟩, rfl⟩
      rw [← h.stream, hu, List.flatten_cons, List.append_assoc]

/-- One step in front of well-formed frames: nothing happens yet, the first of them is
delivered, or there are none and the session is finished. -/
theorem Reading.step (hm : 2 ≤ limits.maxLength) (h : Reading frames s) :
    (Reading frames (s.step limits) ∧ (s.step limits).events = s.events) ∨
    (∃ frame rest, frames = frame :: rest ∧ Reading rest (s.step limits) ∧
      (s.step limits).events = s.events ++ [.message frame.message]) ∨
    (frames = [] ∧ Finished (s.step limits) ∧ (s.step limits).events = s.events) := by
  rcases tidy_answers h.tidy (h.uncut hm) h.running with ⟨reply, framer, left, ha⟩
  have htidy := (step_follows (fun _ => h.uncut hm) h.tidy).2
  have hag := ha.agrees
  rw [Agrees.eq_def, h.outlook] at hag
  rw [step_running h.running, ha.call] at htidy ⊢
  match reply, ha, hag with
  | .ok none, ha, _ =>
    rcases h.quiet hm ha with ⟨rfl, hdis, hoct⟩
    have hd := ha.drained (.inl rfl) (by simp)
    have hread : Reading frames { s with framer := framer } :=
      ⟨⟨⟨ha.synced, h.tidy.steady.returned⟩, ha.octet,
        fun hr he => ⟨(h.tidy.drained hr he).1, hd⟩⟩, h.running, h.stream, hdis, hoct⟩
    have hq : s.eof = true → frames = [] := by
      intro heof
      have hnone := ha.silent heof rfl
      rw [h.outlook] at hnone
      cases frames with
      | nil => rfl
      | cons frame frames =>
        rw [Frame.next_encodeAll hm] at hnone
        cases hnone
    rcases hread.read hd hq with hr | hf
    · exact .inl hr
    · exact .inr (.inr hf)
  | .ok (some message), ha, hag =>
    cases frames with
    | nil => cases hag
    | cons frame frames =>
      rw [Frame.next_encodeAll hm] at hag
      simp only [Option.some.injEq, Prod.mk.injEq, Event.message.injEq] at hag
      rcases hag with ⟨rfl, hmode, hrest⟩
      rcases mode_fresh hmode.symm with ⟨ho, hdis⟩
      right; left
      exact ⟨frame, frames, rfl, ⟨htidy, h.running, hrest.symm, hdis, .inl ho⟩, rfl⟩
  | .error error, ha, hag =>
    cases frames with
    | nil => cases hag
    | cons frame frames =>
      rw [Frame.next_encodeAll hm] at hag
      cases hag

theorem Reading.run (hm : 2 ≤ limits.maxLength) (h : Reading frames s) (n : ℕ) :
    (∃ done rest, frames = done ++ rest ∧ Reading rest ((Session.step limits)^[n] s) ∧
      ((Session.step limits)^[n] s).events =
        s.events ++ done.map (fun frame => .message frame.message)) ∨
    (Finished ((Session.step limits)^[n] s) ∧ ((Session.step limits)^[n] s).events =
      s.events ++ frames.map (fun frame => .message frame.message)) := by
  induction n with
  | zero => exact .inl ⟨[], frames, rfl, h, by simp⟩
  | succ n ih =>
    rw [Function.iterate_succ_apply']
    rcases ih with ⟨done, rest, rfl, hread, hev⟩ | ⟨hfin, hev⟩
    · rcases hread.step hm with ⟨hr, he⟩ | ⟨frame, rest, rfl, hr, he⟩ | ⟨rfl, hf, he⟩
      · exact .inl ⟨done, rest, rfl, hr, he.trans hev⟩
      · exact .inl ⟨done ++ [frame], rest, by simp, hr, by rw [he, hev]; simp⟩
      · exact .inr ⟨hf, by rw [he, hev, List.append_nil]⟩
    · rw [step_stopped (by rw [hfin.closed]; simp)]
      exact .inr ⟨hfin, hev⟩

end Reading
end Session

/-- Every chunking of every well-formed stream is read back as exactly its messages, with no
error and with nothing left in the buffer. -/
theorem serveStream_frames (limits : Limits) (hm : 2 ≤ limits.maxLength)
    (frames : List (Frame limits)) (chunks : List Bytes)
    (hs : chunks.flatten = Frame.encodeAll frames) :
    (serveStream limits chunks).events = frames.map (fun frame => .message frame.message) ∧
      (serveStream limits chunks).buffer = [] ∧ (serveStream limits chunks).status = .closed := by
  have hread : Session.Reading frames (Session.start chunks) :=
    ⟨Session.start_tidy limits chunks, rfl, hs, rfl, .inl rfl⟩
  rcases hread.run hm (Session.start chunks).work with ⟨_, _, _, hr, _⟩ | ⟨hfin, hev⟩
  · exact absurd hr.running (serveStream_stopped limits chunks)
  · exact ⟨hev, hfin.buffer, hfin.closed⟩

/-- With a limit of 4, "4 a\nbc" and "x\r\n" cut in three places. -/
theorem serveStream_frames_mixed :
    (serveStream ⟨64, 4, by decide⟩ [[52], [32, 97, 10, 98], [99, 120, 13], [10]]).events =
      [.message [97, 10, 98, 99], .message [120]] ∧
    (serveStream ⟨64, 4, by decide⟩ [[52], [32, 97, 10, 98], [99, 120, 13], [10]]).buffer = [] ∧
    (serveStream ⟨64, 4, by decide⟩ [[52], [32, 97, 10, 98], [99, 120, 13], [10]]).status =
      .closed :=
  serveStream_frames ⟨64, 4, by decide⟩ (by decide)
    [.octet [97, 10, 98, 99] (by decide) (by decide) (by decide),
      .line [120] true (by decide) (by decide) (by decide) (by decide) (by decide)]
    [[52], [32, 97, 10, 98], [99, 120, 13], [10]] (by decide)

end HyperRuby.Framing
