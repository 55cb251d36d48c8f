import HyperRuby.Framing.Cursor

/-! # Containment of an oversize line

A line longer than the limit is reported once and then dropped by the line
codec while further reads arrive. The drop is undisturbed as long as no read
starts with a digit inside the line, and the frame behind it is read by its own
first byte as long as a leading digit of that frame starts a read.
-/
namespace HyperRuby.Framing
open Library

/-- The stream offsets at which the reads start. -/
def readOffsets : ℕ → List Bytes → List ℕ
  | _, [] => []
  | offset, chunk :: chunks => offset :: readOffsets (offset + chunk.length) chunks

/-- The reads of the stream behind its first `n` bytes. -/
def dropBytes : ℕ → List Bytes → List Bytes
  | 0, chunks => chunks
  | _, [] => []
  | n + 1, chunk :: chunks =>
    if n + 1 < chunk.length then chunk.drop (n + 1) :: chunks
    else dropBytes (n + 1 - chunk.length) chunks

theorem le_of_mem_readOffsets {k offset : ℕ} {chunks : List Bytes}
    (h : k ∈ readOffsets offset chunks) : offset ≤ k := by
  induction chunks generalizing offset with
  | nil => simp [readOffsets] at h
  | cons chunk chunks ih =>
    rcases List.mem_cons.mp h with rfl | h
    · exact le_rfl
    · have := ih h
      omega

/-- Reads that leave the discard of a line alone: beyond the first `limit` bytes none starts
at a digit of the line, and a digit right behind the line starts a read. -/
structure CleanReads (limit : ℕ) (line rest : Bytes) (offset : ℕ) (chunks : List Bytes) :
    Prop where
  inside : ∀ k ∈ readOffsets offset chunks, limit < k → ∀ b ∈ (line)[k]?, leadDigit b = false
  behind : digitLed rest = true → line.length + 1 ∈ readOffsets offset chunks

section CleanReads
variable {limit offset : ℕ} {line rest chunk : Bytes} {chunks : List Bytes}

theorem CleanReads.tail_line {tail : Bytes} (h : CleanReads limit line rest offset chunks)
    (ht : rest = tail ++ chunks.flatten) (ho : offset = line.length + 1 + tail.length) :
    digitLed tail = false := by
  by_contra hd
  have hne : tail ≠ [] := ne_nil_of_digitLed (by simpa using hd)
  have hle := le_of_mem_readOffsets (h.behind (by rw [ht, digitLed_append hne]; simpa using hd))
  have hpos := List.length_pos_iff.mpr hne
  omega

theorem CleanReads.tail (h : CleanReads limit line rest offset (chunk :: chunks))
    (ho : offset < line.length + 1) :
    CleanReads limit line rest (offset + chunk.length) chunks := by
  constructor
  · intro k hk
    exact h.inside k (List.mem_cons_of_mem _ hk)
  · intro hd
    rcases List.mem_cons.mp (h.behind hd) with he | hk
    · omega
    · exact hk

theorem CleanReads.chunk_line (h : CleanReads limit line rest offset (chunk :: chunks))
    (hl : limit < offset) (hs : (chunk :: chunks).flatten = line.drop offset ++ newline :: rest) :
    digitLed chunk = false := by
  cases chunk with
  | nil => rfl
  | cons b chunk =>
    cases hd : line.drop offset with
    | nil =>
      rw [hd] at hs
      rw [(List.cons.inj hs).1]
      exact leadDigit_newline
    | cons b' line' =>
      rw [hd] at hs
      rw [(List.cons.inj hs).1]
      apply h.inside offset List.mem_cons_self hl
      rw [← List.head?_drop, hd]
      rfl

end CleanReads

theorem dropBytes_inside {n : ℕ} {chunk : Bytes} (h0 : 0 < n) (h : n < chunk.length)
    (chunks : List Bytes) : dropBytes n (chunk :: chunks) = chunk.drop n :: chunks := by
  cases n with
  | zero => omega
  | succ n => rw [dropBytes, if_pos h]

theorem dropBytes_past {n : ℕ} {chunk : Bytes} (h0 : 0 < n) (h : chunk.length ≤ n)
    (chunks : List Bytes) :
    dropBytes n (chunk :: chunks) = dropBytes (n - chunk.length) chunks := by
  cases n with
  | zero => omega
  | succ n => rw [dropBytes, if_neg (by omega)]

theorem dropBytes_append {n : ℕ} {buffer : Bytes} (h : buffer.length < n) (chunk : Bytes)
    (chunks : List Bytes) :
    dropBytes n ((buffer ++ chunk) :: chunks) = dropBytes n (buffer :: chunk :: chunks) := by
  rw [dropBytes_past (by omega) h.le]
  by_cases hn : n < (buffer ++ chunk).length
  · rw [List.length_append] at hn
    rw [dropBytes_inside (by omega) (by rw [List.length_append]; omega),
      dropBytes_inside (by omega) (by omega), List.drop_append, List.drop_of_length_le h.le,
      List.nil_append]
  · rw [List.length_append] at hn
    rw [dropBytes_past (by omega) (by rw [List.length_append]; omega),
      dropBytes_past (by omega) (by omega), List.length_append, Nat.sub_add_eq]

namespace Session

def behind (events : List Event) (s : Session) : Session :=
  { s with events := events ++ s.events }

theorem read_behind (events : List Event) (s : Session) :
    (s.behind events).read = s.read.behind events := by
  rcases s with ⟨framer, buffer, unread, eof, produced, status⟩
  cases eof with
  | true => rfl
  | false =>
    cases unread with
    | nil => rfl
    | cons chunk unread => rfl

theorem step_behind (limits : Limits) (events : List Event) (s : Session) :
    (s.behind events).step limits = (s.step limits).behind events := by
  by_cases h : s.status = .running
  · rw [step_running h, step_running (show (s.behind events).status = .running from h)]
    change (s.behind events).handle (s.call limits) = _
    match s.call limits with
    | .error trap => rfl
    | .ok (.ok none, framer, buffer) => exact read_behind events { s with framer, buffer }
    | .ok (.ok (some bytes), framer, buffer) => simp [handle, behind]
    | .ok (.error error, framer, buffer) => simp [handle, behind]
  · rw [step_stopped h, step_stopped (show (s.behind events).status ≠ .running from h)]

theorem iterate_behind (limits : Limits) (events : List Event) (s : Session) (n : ℕ) :
    (step limits)^[n] (s.behind events) = ((step limits)^[n] s).behind events := by
  induction n generalizing s with
  | zero => rfl
  | succ n ih => rw [Function.iterate_succ_apply, step_behind, ih, Function.iterate_succ_apply]

/-- A session between two calls of the line codec. -/
def onLine (codec : LinesCodec) (buffer : Bytes) (unread : List Bytes) (events : List Event) :
    Session := ⟨⟨codec, none⟩, buffer, unread, false, events, .running⟩

/-- What the loop makes of an outcome of the line codec. -/
def settle (out : LinesReply × LinesCodec × Bytes) (unread : List Bytes)
    (events : List Event) : Session :=
  (onLine out.2.1 out.2.2 unread events).handle
    (.ok (out.1.mapError lineError, ⟨out.2.1, none⟩, out.2.2))

theorem step_onLine {limits : Limits} {codec : LinesCodec} {buffer : Bytes}
    (hr : codec.InRange limits.maxLength buffer) (hd : digitLed buffer = false)
    (unread : List Bytes) (events : List Event) :
    (onLine codec buffer unread events).step limits =
      settle (codec.readLine limits.maxLength buffer) unread events := by
  have he : ((onLine codec buffer unread events).framer.enter buffer).octetDecoding = none := by
    rw [Framer.enter_of_line hd]
    rfl
  rw [step_running rfl, call_line he hr]
  change (onLine codec buffer unread events).handle (.ok
    ((codec.readLine limits.maxLength buffer).1.mapError lineError,
      ⟨(codec.readLine limits.maxLength buffer).2.1, none⟩,
      (codec.readLine limits.maxLength buffer).2.2)) = _
  rcases codec.readLine limits.maxLength buffer with ⟨reply, codec', buffer'⟩
  match reply with
  | .ok none => rfl
  | .ok (some bytes) => rfl
  | .error error => rfl

theorem settle_behind (out : LinesReply × LinesCodec × Bytes) (unread : List Bytes)
    (events : List Event) : settle out unread events = (settle out unread []).behind events := by
  rcases out with ⟨reply, codec, buffer⟩
  match reply with
  | .ok none =>
    have h := read_behind events (onLine codec buffer unread [])
    simp only [behind, onLine, List.append_nil] at h
    exact h
  | .ok (some bytes) => rfl
  | .error error => rfl

theorem settle_none (codec : LinesCodec) (buffer chunk : Bytes) (unread : List Bytes)
    (events : List Event) :
    settle (.ok none, codec, buffer) (chunk :: unread) events =
      onLine codec (buffer ++ chunk) unread events := rfl

theorem start_eq (chunks : List Bytes) : start chunks = onLine ⟨0, false⟩ [] chunks [] := rfl

section Skip
variable {limits : Limits} {line rest : Bytes}

/-- Where the newline of a discarded line has arrived, the call that finds it does what a
fresh framer does with the bytes behind it. -/
theorem skip_end {codec : LinesCodec} {tail : Bytes} {unread : List Bytes}
    (hr : codec.InRange limits.maxLength (line ++ newline :: tail))
    (hdis : codec.isDiscarding = true) (hd : digitLed (line ++ newline :: tail) = false)
    (hline : newline ∉ line) (htail : digitLed tail = false) (events : List Event) :
    ∃ m, (onLine codec (line ++ newline :: tail) unread events).step limits =
      ((step limits)^[m] (start (dropBytes (line.length + 1)
        ((line ++ newline :: tail) :: unread)))).behind events := by
  have hcall : codec.readLine limits.maxLength (line ++ newline :: tail) =
      LinesCodec.scanLine limits.maxLength 0 tail := by
    rw [LinesCodec.readLine, if_pos hdis, LinesCodec.skipLine, afterNewline_split hline]
  have hfresh : ∀ buffer : Bytes, digitLed buffer = false →
      (onLine ⟨0, false⟩ buffer unread []).step limits =
        settle (LinesCodec.scanLine limits.maxLength 0 buffer) unread [] := by
    intro buffer hb
    exact step_onLine (LinesCodec.inRange_zero _ _ _) hb unread []
  rw [step_onLine hr hd, hcall, settle_behind]
  cases tail with
  | nil =>
    refine ⟨1, ?_⟩
    rw [dropBytes_past (by omega) (by simp)]
    simp only [List.length_append, List.length_cons, List.length_nil, Nat.zero_add, Nat.sub_self,
      dropBytes, Function.iterate_one, start_eq]
    rw [hfresh [] rfl]
  | cons b tail =>
    refine ⟨2, ?_⟩
    rw [dropBytes_inside (by omega) (by simp), drop_split, start_eq]
    change _ = behind events (step limits ((onLine ⟨0, false⟩ (b :: tail) unread [])))
    rw [hfresh _ htail]

section Reads
variable {codec : LinesCodec} {buffer : Bytes} {unread : List Bytes} {offset : ℕ}

theorem skip_arrived {tail : Bytes} (hr : codec.InRange limits.maxLength buffer)
    (hdis : codec.isDiscarding = true) (hd : digitLed buffer = false) (hline : newline ∉ line)
    (hb : buffer = line.drop offset ++ newline :: tail) (ht : rest = tail ++ unread.flatten)
    (ho : offset ≤ line.length)
    (hc : CleanReads limits.maxLength line rest (offset + buffer.length) unread)
    (events : List Event) :
    ∃ n m, (step limits)^[n] (onLine codec buffer unread events) =
      ((step limits)^[m] (start (dropBytes (line.length + 1 - offset)
        (buffer :: unread)))).behind events := by
  have hlen := congrArg List.length hb
  simp only [List.length_append, List.length_drop, List.length_cons] at hlen
  have htail : digitLed tail = false := hc.tail_line ht (by omega)
  rw [hb] at hr hd ⊢
  rcases skip_end hr hdis hd (fun h => hline (List.mem_of_mem_drop h)) htail events with ⟨m, hm⟩
  refine ⟨1, m, ?_⟩
  rw [Function.iterate_one, hm, List.length_drop, ← Nat.sub_add_comm ho]

/-- A discard over any number of reads ends as if the stream had started behind the line. -/
theorem skip_run (hr : codec.InRange limits.maxLength buffer) (hdis : codec.isDiscarding = true)
    (hd : digitLed buffer = false) (hline : newline ∉ line)
    (hs : buffer ++ unread.flatten = line.drop offset ++ newline :: rest)
    (hl : limits.maxLength < offset + buffer.length) (ho : offset ≤ line.length)
    (hc : CleanReads limits.maxLength line rest (offset + buffer.length) unread)
    (events : List Event) :
    ∃ n m, (step limits)^[n] (onLine codec buffer unread events) =
      ((step limits)^[m] (start (dropBytes (line.length + 1 - offset)
        (buffer :: unread)))).behind events := by
  -- The induction is on the reads to come; `offset` bytes of the line are gone already.
  induction unread generalizing codec buffer offset with
  | nil => exact skip_arrived hr hdis hd hline (by simpa using hs) (by simp) ho hc events
  | cons chunk unread ih =>
    rcases split_cut hs with ⟨tail, hb, ht⟩ | ⟨line', hb, hs'⟩
    · exact skip_arrived hr hdis hd hline hb ht ho hc events
    · have hclear : newline ∉ buffer :=
        fun h => hline (List.mem_of_mem_drop (i := offset) (by rw [hb]; simp [h]))
      have hcall : codec.readLine limits.maxLength buffer = (.ok none, ⟨0, true⟩, []) := by
        rw [LinesCodec.readLine, if_pos hdis, LinesCodec.skipLine,
          afterNewline_eq_none.mpr hclear]
      have hline' : line' = line.drop (offset + buffer.length) := by
        rw [← List.drop_drop, hb, List.drop_left]
      have hlen := congrArg List.length hb
      rw [List.length_drop, List.length_append] at hlen
      rw [hline'] at hs'
      rcases ih (LinesCodec.inRange_zero limits.maxLength true chunk) rfl
        (hc.chunk_line hl hs') hs' (by omega) (by omega) (hc.tail (by omega)) with ⟨n, m, h⟩
      refine ⟨n + 1, m, ?_⟩
      rw [Function.iterate_succ_apply, step_onLine hr hd, hcall, settle_none, List.nil_append, h,
        dropBytes_past (show 0 < line.length + 1 - offset by omega)
          (show buffer.length ≤ line.length + 1 - offset by omega), Nat.sub_add_eq]

theorem take_arrived {n : ℕ} (hs : buffer ++ unread.flatten = line ++ newline :: rest)
    (hb : n ≤ buffer.length) (hl : n ≤ line.length) : buffer.take n = line.take n := by
  rw [← List.take_append_of_le_length hb, hs, List.take_append_of_le_length hl]

theorem digitLed_arrived (hs : buffer ++ unread.flatten = line ++ newline :: rest)
    (hdl : digitLed line = false) (hne : line ≠ []) : digitLed buffer = false := by
  cases hb : buffer with
  | nil => rfl
  | cons b tail =>
    rw [← hb, ← digitLed_append (by rw [hb]; exact List.cons_ne_nil b tail) unread.flatten, hs,
      digitLed_append hne]
    exact hdl

theorem collect_over {cursor : ℕ} (hr : LinesCodec.InRange limits.maxLength ⟨cursor, false⟩ buffer)
    (hd : digitLed buffer = false) (hline : newline ∉ line)
    (hlong : limits.maxLength < line.length)
    (hs : buffer ++ unread.flatten = line ++ newline :: rest)
    (hc : CleanReads limits.maxLength line rest buffer.length unread)
    (hover : limits.maxLength < buffer.length) :
    ∃ n m, (step limits)^[n] (onLine ⟨cursor, false⟩ buffer unread []) =
      ((step limits)^[m] (start (dropBytes (line.length + 1) (buffer :: unread)))).behind
        [.rejected (recoverableError .oversize)] := by
  have hscan : position newline (buffer.take (limits.maxLength + 1)) = none := by
    rw [take_arrived hs hover hlong, position_eq_none]
    exact fun h => hline (List.mem_of_mem_take h)
  have hcall : LinesCodec.readLine limits.maxLength ⟨cursor, false⟩ buffer =
      (.error .maxLineLengthExceeded, ⟨cursor, true⟩, buffer) := by
    simp [LinesCodec.readLine, LinesCodec.scanLine, hscan, hover]
  have hr' : LinesCodec.InRange limits.maxLength ⟨cursor, true⟩ buffer := ⟨hr.bound, hr.clear⟩
  rcases skip_run hr' rfl hd hline (by simpa using hs) (by simpa using hover) (Nat.zero_le _)
    (by simpa using hc) [.rejected (recoverableError .oversize)] with ⟨n, m, h⟩
  refine ⟨n + 1, m, ?_⟩
  rw [Function.iterate_succ_apply, step_onLine hr hd, hcall]
  exact h

/-- A line that is being collected and will not fit is reported once and then discarded. -/
theorem collect_run {cursor : ℕ} (hr : LinesCodec.InRange limits.maxLength ⟨cursor, false⟩ buffer)
    (hline : newline ∉ line) (hdl : digitLed line = false) (hlong : limits.maxLength < line.length)
    (hs : buffer ++ unread.flatten = line ++ newline :: rest)
    (hc : CleanReads limits.maxLength line rest buffer.length unread) :
    ∃ n m, (step limits)^[n] (onLine ⟨cursor, false⟩ buffer unread []) =
      ((step limits)^[m] (start (dropBytes (line.length + 1) (buffer :: unread)))).behind
        [.rejected (recoverableError .oversize)] := by
  have hne : line ≠ [] := List.length_pos_iff.mp (Nat.zero_lt_of_lt hlong)
  induction unread generalizing cursor buffer with
  | nil =>
    have hd := digitLed_arrived hs hdl hne
    have hlen := congrArg List.length hs
    simp only [List.flatten_nil, List.append_nil, List.length_append, List.length_cons] at hlen
    exact collect_over hr hd hline hlong hs hc (by omega)
  | cons chunk unread ih =>
    have hd := digitLed_arrived hs hdl hne
    by_cases hover : limits.maxLength < buffer.length
    · exact collect_over hr hd hline hlong hs hc hover
    · have hclear : newline ∉ buffer := by
        have htake := take_arrived (n := buffer.length) hs le_rfl (by omega)
        rw [List.take_length] at htake
        exact fun h => hline (List.mem_of_mem_take (htake ▸ h))
      have hcall : LinesCodec.readLine limits.maxLength ⟨cursor, false⟩ buffer =
          (.ok none, ⟨buffer.length, false⟩, buffer) := by
        have htake : buffer.take (limits.maxLength + 1) = buffer :=
          List.take_of_length_le (by omega)
        simp [LinesCodec.readLine, LinesCodec.scanLine, htake, position_eq_none.mpr hclear, hover]
      have hr' : LinesCodec.InRange limits.maxLength ⟨buffer.length, false⟩ (buffer ++ chunk) :=
        ⟨by simp only [List.length_append]; omega, by simpa using hclear⟩
      have hc' : CleanReads limits.maxLength line rest (buffer ++ chunk).length unread := by
        rw [List.length_append]
        exact hc.tail (by omega)
      rcases ih hr' (by simpa using hs) hc' with ⟨n, m, h⟩
      refine ⟨n + 1, m, ?_⟩
      rw [Function.iterate_succ_apply, step_onLine hr hd, hcall, settle_none, h,
        dropBytes_append (by omega)]

end Reads
end Skip
end Session

/-- An oversize line is reported once, as recoverable, and the stream behind it is served as
if it were a stream of its own, whenever the reads leave the discard alone. -/
theorem serveStream_oversize (limits : Limits) (line rest : Bytes) (chunks : List Bytes)
    (hs : chunks.flatten = line ++ newline :: rest) (hline : newline ∉ line)
    (hlong : limits.maxLength < line.length) (hdl : digitLed line = false)
    (hc : CleanReads limits.maxLength line rest 0 chunks) :
    serveStream limits chunks =
      (serveStream limits (dropBytes (line.length + 1) chunks)).behind
        [.rejected (recoverableError .oversize)] := by
  rcases Session.collect_run (LinesCodec.inRange_zero limits.maxLength false []) hline hdl hlong
    hs hc with ⟨n, m, h⟩
  rw [← Session.start_eq, dropBytes_past (by omega) (by simp), List.length_nil,
    Nat.sub_zero] at h
  have hstop := stopped_of_work limits (Session.start (dropBytes (line.length + 1) chunks))
    (Nat.le_add_right _ m)
  have hrun : (Session.step limits)^[(Session.start
      (dropBytes (line.length + 1) chunks)).work + n] (Session.start chunks) =
      ((Session.step limits)^[(Session.start (dropBytes (line.length + 1) chunks)).work + m]
        (Session.start (dropBytes (line.length + 1) chunks))).behind
        [.rejected (recoverableError .oversize)] := by
    rw [Function.iterate_add_apply, h, Session.iterate_behind, ← Function.iterate_add_apply]
  rw [serveStream_eq hstop, ← hrun]
  apply serveStream_eq
  rw [hrun]
  exact hstop

/-- With a limit of 4, "aaaaaa\n" and then "3 abc" in a second read meet the condition. -/
theorem serveStream_oversize_split :
    serveStream ⟨64, 4, by decide⟩ [[97, 97, 97, 97, 97, 97, 10], [51, 32, 97, 98, 99]] =
      (serveStream ⟨64, 4, by decide⟩ [[51, 32, 97, 98, 99]]).behind
        [.rejected (recoverableError .oversize)] := by
  have hreads : CleanReads 4 [97, 97, 97, 97, 97, 97] [51, 32, 97, 98, 99] 0
      [[97, 97, 97, 97, 97, 97, 10], [51, 32, 97, 98, 99]] := by
    refine ⟨?_, by decide⟩
    intro k hk hlate b hb
    have hoffset : k = 0 ∨ k = 7 := by simpa [readOffsets] using hk
    rcases hoffset with rfl | rfl
    · omega
    · simp at hb
  exact serveStream_oversize ⟨64, 4, by decide⟩ [97, 97, 97, 97, 97, 97] [51, 32, 97, 98, 99]
    [[97, 97, 97, 97, 97, 97, 10], [51, 32, 97, 98, 99]] (by decide) (by decide) (by decide)
    (by decide) hreads

/-- With a limit of 4, the one line "aaaaaa3 abcx\n" whose second read starts at its digit is
rejected, and then its own bytes "abc" are delivered as a message. -/
theorem oversize_line_leaks :
    [[97, 97, 97, 97, 97, 97], [51, 32, 97, 98, 99, 120, 10]].flatten =
      [97, 97, 97, 97, 97, 97, 51, 32, 97, 98, 99, 120] ++ newline :: [] ∧
    newline ∉ [97, 97, 97, 97, 97, 97, 51, 32, 97, 98, 99, 120] ∧
    digitLed [97, 97, 97, 97, 97, 97, 51, 32, 97, 98, 99, 120] = false ∧
    (serveStream ⟨64, 4, by decide⟩
      [[97, 97, 97, 97, 97, 97], [51, 32, 97, 98, 99, 120, 10]]).events =
        [.rejected (recoverableError .oversize), .message [97, 98, 99]] ∧
    (serveStream ⟨64, 4, by decide⟩ (dropBytes 13
      [[97, 97, 97, 97, 97, 97], [51, 32, 97, 98, 99, 120, 10]])).events = [] := by
  decide

end HyperRuby.Framing
