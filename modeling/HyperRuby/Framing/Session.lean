import HyperRuby.Library.Run
import HyperRuby.Framing.Framer

/-! # The read loop of a stream connection

`serve_stream` decodes until the buffer gives nothing more, then reads the next
chunk, and after the last chunk decodes at end of stream. A session is the state
of that loop together with the results it has produced; one step is one decode
call with what the loop does about its reply.
-/
namespace HyperRuby.Framing
open Library

/-- A result of the loop: a delivered message or a counted rejection. -/
inductive Event where
  | message (bytes : Bytes)
  | rejected (error : FrameError)
  deriving DecidableEq, Repr

inductive Status where
  | running
  | closed
  | panicked (trap : Trap)
  deriving DecidableEq, Repr

structure Session where
  framer : Framer
  buffer : Bytes
  unread : List Bytes
  eof : Bool
  events : List Event
  status : Status
  deriving DecidableEq, Repr

namespace Session

def start (chunks : List Bytes) : Session := ⟨.new, [], chunks, false, [], .running⟩

/-- The decode call at the top of the inner loop. -/
def call (limits : Limits) (s : Session) : Except Trap (Reply × Framer × Bytes) :=
  if s.eof then s.framer.decodeEof limits s.buffer else s.framer.decode limits s.buffer

/-- Leaving the inner loop: stop after end of stream, else append what the next read gives. -/
def read (s : Session) : Session :=
  if s.eof then { s with status := .closed }
  else match s.unread with
    | [] => { s with eof := true }
    | chunk :: unread => { s with buffer := s.buffer ++ chunk, unread := unread }

def handle (s : Session) : Except Trap (Reply × Framer × Bytes) → Session
  | .error trap => { s with status := .panicked trap }
  | .ok (.ok (some bytes), framer, buffer) =>
    { s with framer := framer, buffer := buffer, events := s.events ++ [.message bytes] }
  | .ok (.ok none, framer, buffer) => read { s with framer := framer, buffer := buffer }
  | .ok (.error error, framer, buffer) =>
    { s with framer := framer, buffer := buffer, events := s.events ++ [.rejected error],
             status := if error.fatal then .closed else .running }

def step (limits : Limits) (s : Session) : Session :=
  if s.status = .running then s.handle (s.call limits) else s

theorem step_running {limits : Limits} {s : Session} (h : s.status = .running) :
    s.step limits = s.handle (s.call limits) := if_pos h

theorem step_stopped {limits : Limits} {s : Session} (h : s.status ≠ .running) :
    s.step limits = s := if_neg h

theorem read_eof {s : Session} (he : s.eof = true) : s.read = { s with status := .closed } :=
  if_pos he

theorem read_last {s : Session} (he : s.eof = false) (hu : s.unread = []) :
    s.read = { s with eof := true } := by
  rw [read, he, hu]
  rfl

theorem read_chunk {s : Session} {chunk : Bytes} {unread : List Bytes} (he : s.eof = false)
    (hu : s.unread = chunk :: unread) :
    s.read = { s with buffer := s.buffer ++ chunk, unread := unread } := by
  rw [read, he, hu]
  rfl

theorem call_octet (limits : Limits) {s : Session} {state : State}
    (h : (s.framer.enter s.buffer).octetDecoding = some state) :
    ∃ reply next left,
      s.call limits = .ok (reply, { s.framer with octetDecoding := next }, left) ∧
      Framer.OctetStep limits state s.buffer reply next left := by
  rw [call]
  split
  · exact Framer.decodeVia_octet limits _ h
  · exact Framer.decodeVia_octet limits _ h

/-- Closed form of a call that goes to the line codec. -/
def lineOutcome (limits : Limits) (s : Session) : LinesReply × LinesCodec × Bytes :=
  if s.eof then LinesCodec.release (s.framer.other.readLine limits.maxLength s.buffer)
  else s.framer.other.readLine limits.maxLength s.buffer

theorem call_line {limits : Limits} {s : Session}
    (h : (s.framer.enter s.buffer).octetDecoding = none)
    (hr : s.framer.other.InRange limits.maxLength s.buffer) :
    s.call limits = .ok ((s.lineOutcome limits).1.mapError lineError,
      { s.framer with other := (s.lineOutcome limits).2.1 }, (s.lineOutcome limits).2.2) := by
  rw [call, lineOutcome]
  split
  · rw [Framer.decodeEof, Framer.decodeVia_line limits _ h, LinesCodec.decodeEof_eq hr]
    rfl
  · rw [Framer.decode, Framer.decodeVia_line limits _ h, LinesCodec.decode_eq hr]
    rfl

/-- Everything a call that returns can do, whatever the framer and the buffer. -/
inductive Called (limits : Limits) (s : Session) : Reply → Framer → Bytes → Prop where
  | octet {state : State} {reply : Reply} {next : Option State} {left : Bytes}
      (mode : (s.framer.enter s.buffer).octetDecoding = some state)
      (step : Framer.OctetStep limits state s.buffer reply next left) :
      Called limits s reply { s.framer with octetDecoding := next } left
  | line {reply : LinesReply} {codec : LinesCodec} {left : Bytes}
      (mode : (s.framer.enter s.buffer).octetDecoding = none) (going : s.eof = false)
      (step : LinesCodec.LoopStep limits.maxLength s.framer.other s.buffer reply codec left) :
      Called limits s (reply.mapError lineError) { s.framer with other := codec } left
  | lastLine {reply : LinesReply} {codec : LinesCodec} {left : Bytes}
      (mode : (s.framer.enter s.buffer).octetDecoding = none) (ended : s.eof = true)
      (step : LinesCodec.LoopStep limits.maxLength s.framer.other s.buffer reply codec left) :
      Called limits s ((LinesCodec.release (reply, codec, left)).1.mapError lineError)
        { s.framer with other := (LinesCodec.release (reply, codec, left)).2.1 }
        (LinesCodec.release (reply, codec, left)).2.2

theorem called_of_call {limits : Limits} {s : Session} {reply : Reply} {framer : Framer}
    {left : Bytes} (h : s.call limits = .ok (reply, framer, left)) :
    Called limits s reply framer left := by
  cases mode : (s.framer.enter s.buffer).octetDecoding with
  | some state =>
    obtain ⟨reply', next, left', hcall, hstep⟩ := call_octet limits mode
    rw [hcall] at h
    cases h
    exact .octet mode hstep
  | none =>
    rw [call] at h
    cases he : s.eof with
    | true =>
      rw [he, if_pos rfl, Framer.decodeEof, Framer.decodeVia_line limits _ mode] at h
      cases hline : LinesCodec.decodeEof limits.maxLength s.framer.other s.buffer with
      | error trap =>
        rw [hline] at h
        cases h
      | ok out =>
        obtain ⟨reply', codec, left', hstep, rfl⟩ := LinesCodec.decodeEof_step hline
        rw [hline] at h
        cases h
        exact .lastLine mode he hstep
    | false =>
      rw [he, if_neg (by simp), Framer.decode, Framer.decodeVia_line limits _ mode] at h
      cases hline : LinesCodec.decode limits.maxLength s.framer.other s.buffer with
      | error trap =>
        rw [hline] at h
        cases h
      | ok out =>
        have hstep := LinesCodec.decodeLoop_step hline
        rw [hline] at h
        cases h
        exact .line mode he hstep

/-- The line codec's weight, the bytes and reads to come, and the end of the stream. -/
def work (s : Session) : ℕ :=
  if s.status = .running then
    s.framer.other.weight s.buffer + 2 * s.unread.flatten.length + s.unread.length +
      (if s.eof then 0 else 1) + 1
  else 0

theorem mapError_ne_none {reply : LinesReply} (h : reply.mapError lineError ≠ .ok none) :
    reply ≠ .ok none := by
  rintro rfl
  exact h rfl

theorem call_progress {limits : Limits} {s : Session} {framer : Framer} {rest : Bytes}
    {reply : Reply} (h : s.call limits = .ok (reply, framer, rest)) :
    framer.other.weight rest ≤ s.framer.other.weight s.buffer ∧
      (reply ≠ .ok none → (∀ error, reply = .error error → error.fatal = false) →
        framer.other.weight rest < s.framer.other.weight s.buffer) := by
  cases called_of_call h with
  | octet mode step =>
    obtain ⟨hle, hlt⟩ := Framer.octetStep_length step
    simp only [LinesCodec.weight]
    refine ⟨by omega, fun hne hrec => ?_⟩
    rcases reply with error | _ | msg
    · have hfatal := Framer.octetStep_fatal step
      rw [hrec error rfl] at hfatal
      cases hfatal
    · exact absurd rfl hne
    · have := hlt msg rfl
      omega
  | line mode going step =>
    exact ⟨step.progress.1, fun hne _ => step.progress.2 (mapError_ne_none hne)⟩
  | lastLine mode ended step =>
    exact ⟨step.release_progress.1, fun hne _ => step.release_progress.2 (mapError_ne_none hne)⟩

theorem weight_append (codec : LinesCodec) (buf more : Bytes) :
    codec.weight (buf ++ more) = codec.weight buf + 2 * more.length := by
  simp only [LinesCodec.weight, List.length_append]
  omega

theorem read_work {s : Session} (h : s.status = .running) : s.read.work < s.work := by
  rw [read]
  cases he : s.eof with
  | true => simp [work, h]
  | false =>
    cases hu : s.unread with
    | nil => simp [work, h, he, hu]
    | cons chunk unread =>
      simp [work, h, he, hu, weight_append]
      omega

theorem step_work {limits : Limits} {s : Session} (h : s.status = .running) :
    (s.step limits).work < s.work := by
  rw [step_running h]
  cases hc : s.call limits with
  | error trap => simp [handle, work, h]
  | ok out =>
    obtain ⟨reply, framer, rest⟩ := out
    obtain ⟨hle, hlt⟩ := call_progress hc
    match reply, hlt with
    | .ok none, _ =>
      have hr := read_work (s := { s with framer := framer, buffer := rest }) h
      have hs : work { s with framer := framer, buffer := rest } ≤ s.work := by
        simp only [work, h, if_true]
        omega
      exact lt_of_lt_of_le hr hs
    | .ok (some bytes), hlt =>
      have := hlt (by simp) (by simp)
      simp only [handle, work, h, if_true]
      omega
    | .error error, hlt =>
      cases hf : error.fatal with
      | true => simp [handle, work, h, hf]
      | false =>
        have := hlt (by simp) (by rintro e he; cases he; exact hf)
        simp only [handle, work, h, hf, if_true, Bool.false_eq_true, if_false]
        omega

def messages (s : Session) : List Bytes :=
  s.events.filterMap (fun event =>
    match event with
    | .message bytes => some bytes
    | .rejected _ => none)

theorem step_events (limits : Limits) (s : Session) : s.events <+: (s.step limits).events := by
  by_cases hrun : s.status = .running
  · rw [step_running hrun]
    rcases s.call limits with trap | ⟨error | _ | bytes, framer, buffer⟩
    · exact List.prefix_rfl
    · exact List.prefix_append _ _
    · rw [handle, read]
      split
      · exact List.prefix_rfl
      · split <;> exact List.prefix_rfl
    · exact List.prefix_append _ _
  · rw [step_stopped hrun]

theorem read_framer (s : Session) : s.read.framer = s.framer := by
  rw [read]
  split
  · rfl
  · split <;> rfl

theorem step_framer (limits : Limits) (s : Session) :
    (s.step limits).framer = s.framer ∨
      ∃ reply left, s.call limits = .ok (reply, (s.step limits).framer, left) := by
  by_cases hrun : s.status = .running
  · rw [step_running hrun]
    rcases hcall : s.call limits with trap | ⟨error | _ | bytes, framer, left⟩
    · exact .inl rfl
    · exact .inr ⟨_, _, rfl⟩
    · exact .inr ⟨_, _, by rw [handle, read_framer]⟩
    · exact .inr ⟨_, _, rfl⟩
  · rw [step_stopped hrun]
    exact .inl rfl

end Session

/-- The loop run to its end on a stream that arrives in the given chunks. -/
def serveStream (limits : Limits) (chunks : List Bytes) : Session :=
  (Session.step limits)^[(Session.start chunks).work] (Session.start chunks)

theorem stopped_of_work (limits : Limits) (s : Session) {n : ℕ} (hn : s.work ≤ n) :
    ((Session.step limits)^[n] s).status ≠ .running :=
  rest_of_measure (fun t => t.status ≠ .running) (fun _ => Session.step_stopped)
    (fun _ ht => Session.step_work (not_not.mp ht)) hn

/-- The read loop ends on every stream and every chunking. -/
theorem serveStream_stopped (limits : Limits) (chunks : List Bytes) :
    (serveStream limits chunks).status ≠ .running := stopped_of_work limits _ le_rfl

theorem serveStream_eq {limits : Limits} {chunks : List Bytes} {n : ℕ}
    (h : ((Session.step limits)^[n] (Session.start chunks)).status ≠ .running) :
    serveStream limits chunks = (Session.step limits)^[n] (Session.start chunks) :=
  rest_unique (fun t => t.status ≠ .running) (fun _ => Session.step_stopped)
    (serveStream_stopped limits chunks) h

theorem serveStream_messages (limits : Limits) (chunks : List Bytes) (n : ℕ) :
    ((Session.step limits)^[n] (.start chunks)).messages <+:
      (serveStream limits chunks).messages := by
  have hgrow : ∀ (s : Session) (m : ℕ), s.events <+: ((Session.step limits)^[m] s).events := by
    intro s m
    induction m with
    | zero => exact List.prefix_rfl
    | succ m ih =>
      rw [Function.iterate_succ_apply']
      exact ih.trans (Session.step_events limits _)
  have hstopped := stopped_of_work limits (Session.start chunks) (Nat.le_add_right _ n)
  rw [serveStream_eq hstopped, Function.iterate_add_apply]
  exact (hgrow _ _).filterMap _

end HyperRuby.Framing
