import HyperRuby.Framing.Session

/-! # The hidden search cursor of the line codec

`next_index` points into a buffer that octet counting consumes without telling
the line codec. It stays in range as long as it is only ever positive in front
of a line, that is, behind a first byte that does not start octet counting. The
one call that breaks this ends a discard and, in the same call, leaves the cursor
behind an unterminated line that starts with a digit.
-/
namespace HyperRuby.Framing
open Library

/-- A cursor in range, and positive only in front of a line that octet counting
will not take over. -/
structure Synced (limits : Limits) (framer : Framer) (buffer : Bytes) : Prop where
  inRange : framer.other.InRange limits.maxLength buffer
  octet : 0 < framer.other.nextIndex → framer.octetDecoding = none
  line : 0 < framer.other.nextIndex → digitLed buffer = false

/-- The next `decode` ends a discard and leaves the cursor behind a digit. -/
def StrandsCursor (limits : Limits) (framer : Framer) (buffer : Bytes) : Prop :=
  framer.octetDecoding = none ∧ digitLed buffer = false ∧ framer.other.isDiscarding = true ∧
    ∃ rest ∈ afterNewline buffer,
      newline ∉ rest ∧ rest.length ≤ limits.maxLength ∧ digitLed rest = true

instance (limits : Limits) (framer : Framer) (buffer : Bytes) :
    Decidable (StrandsCursor limits framer buffer) := inferInstanceAs (Decidable (_ ∧ _))

section Calls
variable {limits : Limits} {framer : Framer} {buffer : Bytes}

theorem Synced.of_zero {framer : Framer} (h : framer.other.nextIndex = 0) (buffer : Bytes) :
    Synced limits framer buffer :=
  ⟨⟨by simp [h], by simp [h]⟩, by simp [h], by simp [h]⟩

theorem Synced.append (h : Synced limits framer buffer) (chunk : Bytes) :
    Synced limits framer (buffer ++ chunk) := by
  have hb := h.inRange.bound
  refine ⟨⟨?_, ?_⟩, h.octet, ?_⟩
  · rw [List.length_append]
    omega
  · rw [List.take_append_of_le_length (by omega)]
    exact h.inRange.clear
  · intro hpos
    rw [digitLed_append (by rintro rfl; simp at hb; omega)]
    exact h.line hpos

/-- Octet counting is only entered with the cursor at the front. -/
theorem Synced.octet_zero (h : Synced limits framer buffer) {state : State}
    (he : (framer.enter buffer).octetDecoding = some state) : framer.other.nextIndex = 0 := by
  by_contra hne
  have hpos := Nat.pos_of_ne_zero hne
  rw [Framer.enter_of_line (h.line hpos), h.octet hpos] at he
  cases he

theorem line_of_enter (he : (framer.enter buffer).octetDecoding = none) :
    framer.octetDecoding = none ∧ digitLed buffer = false := by
  cases ho : framer.octetDecoding with
  | some state => rw [Framer.enter_of_some ho, ho] at he; cases he
  | none =>
    cases hd : digitLed buffer with
    | true => rw [Framer.enter_of_digit ho hd] at he; cases he
    | false => exact ⟨rfl, rfl⟩

theorem scanLine_synced {cursor : ℕ} (ho : framer.octetDecoding = none)
    (h : Synced limits { framer with other := ⟨cursor, true⟩ } buffer)
    (hl : (LinesCodec.scanLine limits.maxLength cursor buffer).1 = .ok none →
      digitLed buffer = false) :
    Synced limits
      { framer with other := (LinesCodec.scanLine limits.maxLength cursor buffer).2.1 }
      (LinesCodec.scanLine limits.maxLength cursor buffer).2.2 := by
  by_cases hn : (LinesCodec.scanLine limits.maxLength cursor buffer).1 = .ok none
  · obtain ⟨hclear, hlen, he⟩ := LinesCodec.scanLine_none hn
    rw [he]
    exact ⟨⟨by simp only; omega, by simpa using hclear⟩, fun _ => ho, fun _ => hl hn⟩
  · rw [LinesCodec.scanLine] at hn ⊢
    split at hn
    · exact Synced.of_zero rfl _
    · split_ifs at hn ⊢ with hlen
      · exact h
      · exact absurd rfl hn

theorem readLine_synced (h : Synced limits framer buffer) (ho : framer.octetDecoding = none)
    (hd : digitLed buffer = false)
    (hg : (framer.other.readLine limits.maxLength buffer).1 = .ok none →
      ¬ StrandsCursor limits framer buffer) :
    Synced limits
      { framer with other := (framer.other.readLine limits.maxLength buffer).2.1 }
      (framer.other.readLine limits.maxLength buffer).2.2 := by
  rw [LinesCodec.readLine] at hg ⊢
  split
  · rename_i hdis
    rw [if_pos hdis, LinesCodec.skipLine] at hg
    rw [LinesCodec.skipLine]
    split
    · rename_i rest hrest
      rw [hrest] at hg
      apply scanLine_synced ho (Synced.of_zero rfl _)
      intro hnone
      obtain ⟨hclear, hlen, -⟩ := LinesCodec.scanLine_none hnone
      by_contra hlead
      exact hg hnone ⟨ho, hd, hdis, rest, hrest, hclear, hlen, by simpa using hlead⟩
    · exact Synced.of_zero rfl _
  · exact scanLine_synced ho ⟨⟨h.inRange.bound, h.inRange.clear⟩, h.octet, h.line⟩ (fun _ => hd)

theorem release_synced {out : LinesReply × LinesCodec × Bytes}
    (h : out.1 ≠ .ok none → Synced limits { framer with other := out.2.1 } out.2.2) :
    Synced limits { framer with other := (LinesCodec.release out).2.1 }
      (LinesCodec.release out).2.2 := by
  rw [LinesCodec.release.eq_def]
  split
  · split <;> exact Synced.of_zero rfl _
  · rename_i hne
    exact h (fun he => hne out.2.1 out.2.2 (by rw [← he]))

end Calls

namespace Session

/-- The call this session makes next slices and advances within the buffer. -/
def CallInRange (limits : Limits) (s : Session) : Prop :=
  ((s.framer.enter s.buffer).octetDecoding = none →
    s.framer.other.nextIndex ≤ min (limits.maxLength + 1) s.buffer.length) ∧
  ∃ out, s.call limits = .ok out

theorem call_synced {limits : Limits} {s : Session} (h : Synced limits s.framer s.buffer)
    (hg : s.eof = false → ¬ StrandsCursor limits s.framer s.buffer) :
    ∃ reply framer buffer, s.call limits = .ok (reply, framer, buffer) ∧
      Synced limits framer buffer := by
  cases he : (s.framer.enter s.buffer).octetDecoding with
  | some state =>
    obtain ⟨reply, next, left, hd, -⟩ := call_octet limits he
    have hz : ({ s.framer with octetDecoding := next } : Framer).other.nextIndex = 0 :=
      h.octet_zero he
    exact ⟨_, _, _, hd, Synced.of_zero hz _⟩
  | none =>
    obtain ⟨ho, hd⟩ := line_of_enter he
    refine ⟨_, _, _, call_line he h.inRange, ?_⟩
    rw [lineOutcome]
    split
    · exact release_synced (fun hne => readLine_synced h ho hd (fun hn => absurd hn hne))
    · rename_i heof
      exact readLine_synced h ho hd (fun _ => hg (by simpa using heof))

structure Steady (limits : Limits) (s : Session) : Prop where
  synced : Synced limits s.framer s.buffer
  returned : ∀ trap, s.status ≠ .panicked trap

theorem start_steady (limits : Limits) (chunks : List Bytes) : Steady limits (start chunks) :=
  ⟨Synced.of_zero rfl _, by simp [start]⟩

theorem read_steady {limits : Limits} {s : Session} (h : Steady limits s) :
    Steady limits s.read := by
  rw [read]
  split
  · exact ⟨h.synced, by simp⟩
  · split
    · exact ⟨h.synced, h.returned⟩
    · exact ⟨h.synced.append _, h.returned⟩

theorem step_steady {limits : Limits} {s : Session}
    (hg : s.eof = false → ¬ StrandsCursor limits s.framer s.buffer) (h : Steady limits s) :
    Steady limits (s.step limits) := by
  by_cases hr : s.status = .running
  · obtain ⟨reply, framer, buffer, hc, hs⟩ := call_synced h.synced hg
    rw [step_running hr, hc]
    match reply with
    | .ok none => exact read_steady ⟨hs, h.returned⟩
    | .ok (some bytes) => exact ⟨hs, h.returned⟩
    | .error error =>
      refine ⟨hs, fun trap => ?_⟩
      simp only [handle]
      split <;> simp
  · rwa [step_stopped hr]

/-- Along every run in which no discard ends in front of an unterminated digit-led line,
each call slices and advances within the buffer. -/
theorem calls_inRange (limits : Limits) (chunks : List Bytes)
    (h : ∀ n, ((step limits)^[n] (start chunks)).eof = false →
      ¬ StrandsCursor limits ((step limits)^[n] (start chunks)).framer
        ((step limits)^[n] (start chunks)).buffer) (n : ℕ) :
    CallInRange limits ((step limits)^[n] (start chunks)) ∧
      ∀ trap, ((step limits)^[n] (start chunks)).status ≠ .panicked trap := by
  have hs := iterate_invariant (Steady limits) (fun _ => step_steady) h
    (start_steady limits chunks) n
  obtain ⟨reply, framer, buffer, hc, -⟩ := call_synced hs.synced (h n)
  refine ⟨⟨fun he => ?_, _, hc⟩, hs.returned⟩
  exact hs.synced.inRange.bound

/-- With a limit of 4, the stream "aaaaaa\\n" then "3 abc" read in two chunks meets the
guard: the discard ends at the end of the first chunk. -/
theorem calls_inRange_split :
    CallInRange ⟨64, 4, by decide⟩ ((step ⟨64, 4, by decide⟩)^[4]
      (start [[97, 97, 97, 97, 97, 97, 10], [51, 32, 97, 98, 99]])) ∧
    ∀ trap, ((step ⟨64, 4, by decide⟩)^[4]
      (start [[97, 97, 97, 97, 97, 97, 10], [51, 32, 97, 98, 99]])).status ≠ .panicked trap :=
  calls_inRange ⟨64, 4, by decide⟩ [[97, 97, 97, 97, 97, 97, 10], [51, 32, 97, 98, 99]]
    (forall_iterate_of_rest (fun t : Session => t.status ≠ .running) (n := 12)
      (P := fun t => t.eof = false → ¬ StrandsCursor ⟨64, 4, by decide⟩ t.framer t.buffer)
      (fun _ => step_stopped) (by decide) (by decide)) 4

/-- With a limit of 4, "aaaaaa\\n3 ab" then "c" strands the cursor at 4: the octet frame
"abc" empties the buffer, and the next call slices `buf[4..0]`. -/
theorem stranded_cursor_panics :
    ((step ⟨64, 4, by decide⟩)^[4]
      (start [[97, 97, 97, 97, 97, 97, 10, 51, 32, 97, 98], [99]])).status = .running ∧
    ¬ CallInRange ⟨64, 4, by decide⟩ ((step ⟨64, 4, by decide⟩)^[4]
      (start [[97, 97, 97, 97, 97, 97, 10, 51, 32, 97, 98], [99]])) := by
  constructor
  · decide
  rintro ⟨-, out, h⟩
  have htrap : ((step ⟨64, 4, by decide⟩)^[4]
      (start [[97, 97, 97, 97, 97, 97, 10, 51, 32, 97, 98], [99]])).call ⟨64, 4, by decide⟩ =
      .error .indexOutOfRange := by decide
  rw [htrap] at h
  cases h

end Session
end HyperRuby.Framing
