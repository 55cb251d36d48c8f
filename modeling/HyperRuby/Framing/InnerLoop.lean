import HyperRuby.Framing.Session

/-! # The inner decode loop ends

Between two reads `serve_stream` calls the framer until it has nothing more to say. The buffer
alone does not measure the calls left: an oversize line is reported without using up a byte.
The line codec's weight does, since that report sets the discard flag.
-/
namespace HyperRuby.Framing
open Library

namespace LinesCodec

theorem LoopStep.discarding {maxLength : ℕ} {codec codec' : LinesCodec} {buf rest : Bytes}
    (h : LoopStep maxLength codec buf (.error .maxLineLengthExceeded) codec' rest) :
    codec'.isDiscarding = true := by
  generalize hr : (Except.error .maxLineLengthExceeded : LinesReply) = reply at h
  induction h with
  | passed p inside again ih => exact ih hr
  | dropped more again ih => exact ih hr
  | line p near inside =>
    rw [utf8] at hr
    split_ifs at hr
    cases hr
  | exceeded idle long => rfl
  | emptied | waiting => cases hr

theorem LoopStep.line_length {maxLength : ℕ} {codec codec' : LinesCodec} {buf rest line : Bytes}
    (h : LoopStep maxLength codec buf (.ok (some line)) codec' rest) :
    rest.length < buf.length := by
  generalize hr : (Except.ok (some line) : LinesReply) = reply at h
  induction h with
  | passed p inside again ih =>
    have hlt := ih hr
    rw [List.length_drop] at hlt
    omega
  | dropped more again ih =>
    have hlt := ih hr
    rw [List.length_drop] at hlt
    omega
  | line p near inside =>
    rw [List.length_drop]
    omega
  | emptied | exceeded | waiting => cases hr

end LinesCodec

namespace Session
variable {limits : Limits} {s : Session}

/-- The inner loop is left at this call: the buffer gives nothing more, the error is fatal, or
the call panics. -/
def Leaves (limits : Limits) (s : Session) : Prop :=
  match s.call limits with
  | .ok (.ok (some _), _) => False
  | .ok (.ok none, _) => True
  | .ok (.error error, _) => error.fatal = true
  | .error _ => True

/-- The call reports a frame that is skipped while the loop goes on. -/
def Recovers (limits : Limits) (s : Session) : Prop :=
  ∃ error framer left, s.call limits = .ok (.error error, framer, left) ∧ error.fatal = false

theorem answered_of_stays (h : ¬ s.Leaves limits) :
    ∃ reply framer left, s.call limits = .ok (reply, framer, left) ∧ reply ≠ .ok none ∧
      ∀ error, reply = .error error → error.fatal = false := by
  rw [Leaves] at h
  rcases hcall : s.call limits with trap | ⟨error | _ | bytes, framer, left⟩
  · rw [hcall] at h
    exact absurd trivial h
  · rw [hcall] at h
    refine ⟨_, _, _, rfl, by simp, ?_⟩
    intro e he
    cases he
    simpa using h
  · rw [hcall] at h
    exact absurd trivial h
  · exact ⟨_, _, _, rfl, by simp, by simp⟩

theorem step_of_answer {reply : Reply} {framer : Framer} {left : Bytes}
    (hrun : s.status = .running) (hcall : s.call limits = .ok (reply, framer, left))
    (hanswer : reply ≠ .ok none) (hrec : ∀ error, reply = .error error → error.fatal = false) :
    (s.step limits).status = .running ∧ (s.step limits).framer = framer ∧
      (s.step limits).buffer = left := by
  rw [step_running hrun, hcall]
  rcases reply with error | _ | bytes
  · simp [handle, hrec error rfl]
  · exact absurd rfl hanswer
  · exact ⟨hrun, rfl, rfl⟩

theorem step_weight (hrun : s.status = .running) (h : ¬ s.Leaves limits) :
    (s.step limits).status = .running ∧
      (s.step limits).framer.other.weight (s.step limits).buffer <
        s.framer.other.weight s.buffer := by
  obtain ⟨reply, framer, left, hcall, hanswer, hrec⟩ := answered_of_stays h
  obtain ⟨hstatus, hframer, hbuffer⟩ := step_of_answer hrun hcall hanswer hrec
  rw [hframer, hbuffer]
  exact ⟨hstatus, (call_progress hcall).2 hanswer hrec⟩

theorem inner_fall (hrun : s.status = .running) {n : ℕ}
    (hgoing : ∀ m < n, ¬ ((step limits)^[m] s).Leaves limits) :
    ((step limits)^[n] s).status = .running ∧
      ((step limits)^[n] s).framer.other.weight ((step limits)^[n] s).buffer + n ≤
        s.framer.other.weight s.buffer :=
  iterate_fall (fun t => t.status = .running) (fun t => t.framer.other.weight t.buffer)
    (Leaves limits) (fun _ => step_weight) hrun hgoing

theorem exceeded_of_call {error : FrameError} {framer : Framer} {left : Bytes}
    (mode : (s.framer.enter s.buffer).octetDecoding = none)
    (hcall : s.call limits = .ok (.error error, framer, left)) (hio : error ≠ lineError .io) :
    error = recoverableError .oversize ∧
      ∃ codec, framer = { s.framer with other := codec } ∧
        LinesCodec.decode limits.maxLength s.framer.other s.buffer =
          .ok (.error .maxLineLengthExceeded, codec, left) := by
  have hline : ∀ {reply : LinesReply}, reply.mapError lineError = .error error →
      reply = .error .maxLineLengthExceeded ∧ error = recoverableError .oversize := by
    intro reply hr
    match reply, hr with
    | .error .maxLineLengthExceeded, hr => cases hr; exact ⟨rfl, rfl⟩
    | .error .io, hr => cases hr; exact absurd rfl hio
  rw [call] at hcall
  split at hcall
  · rw [Framer.decodeEof, Framer.decodeVia_line limits _ mode, LinesCodec.decodeEof] at hcall
    rcases hdec : LinesCodec.decode limits.maxLength s.framer.other s.buffer with
      trap | ⟨error' | _ | bytes, codec, rest⟩
    · rw [hdec] at hcall
      cases hcall
    · rw [hdec] at hcall
      injection hcall with hcall
      simp only [LinesCodec.release, Prod.mk.injEq] at hcall
      obtain ⟨hr, herror⟩ := hline hcall.1
      exact ⟨herror, codec, hcall.2.1.symm, by rw [hr, hcall.2.2]⟩
    · -- a line released at the end of the stream is at worst not UTF-8
      rw [hdec] at hcall
      injection hcall with hcall
      simp only [Prod.mk.injEq] at hcall
      have hreply := (hline hcall.1).1
      rcases LinesCodec.release_none codec rest with hkept | ⟨-, hreleased⟩
      · rw [hkept] at hreply
        cases hreply
      · rw [hreleased, utf8] at hreply
        split_ifs at hreply
        cases hreply
    · rw [hdec] at hcall
      cases hcall
  · rw [Framer.decode, Framer.decodeVia_line limits _ mode] at hcall
    rcases hdec : LinesCodec.decode limits.maxLength s.framer.other s.buffer with
      trap | ⟨reply, codec, rest⟩
    · rw [hdec] at hcall
      cases hcall
    · rw [hdec] at hcall
      injection hcall with hcall
      simp only [Prod.mk.injEq] at hcall
      obtain ⟨hr, herror⟩ := hline hcall.1
      exact ⟨herror, codec, hcall.2.1.symm, by rw [hr, hcall.2.2]⟩

theorem Recovers.discarding (hrun : s.status = .running) (h : s.Recovers limits) :
    (s.step limits).framer.other.isDiscarding = true := by
  obtain ⟨error, framer, left, hcall, hrec⟩ := h
  have hframer := (step_of_answer hrun hcall (by simp) (by rintro e he; cases he; exact hrec)).2.1
  rw [hframer]
  cases mode : (s.framer.enter s.buffer).octetDecoding with
  | some state =>
    obtain ⟨reply, next, left', hoctet, hstep⟩ := call_octet limits mode
    cases hoctet.symm.trans hcall
    rw [Framer.octetStep_fatal hstep] at hrec
    cases hrec
  | none =>
    obtain ⟨-, codec, rfl, hdec⟩ := exceeded_of_call mode hcall (by rintro rfl; cases hrec)
    exact (LinesCodec.decodeLoop_step hdec).discarding

/-- A call that hands out a message uses up a byte. -/
theorem message_consumes {bytes left : Bytes} {framer : Framer}
    (h : s.call limits = .ok (.ok (some bytes), framer, left)) :
    left.length < s.buffer.length := by
  generalize hr : (Except.ok (some bytes) : Reply) = reply at h
  cases called_of_call h with
  | octet mode step => exact (Framer.octetStep_length step).2 bytes hr.symm
  | @line reply codec left mode going step =>
    match reply, hr, step with
    | .ok (some line), _, step => exact step.line_length
  | @lastLine reply codec left mode ended step =>
    match reply, hr, step with
    | .ok (some line), _, step => exact step.line_length
    | .ok none, hr, step =>
      rcases LinesCodec.release_none codec left with hkept | ⟨hne, hreleased⟩
      · rw [hkept] at hr
        cases hr
      · rw [hreleased]
        have hweight := step.progress.1
        have hpos := List.length_pos_iff.mpr hne
        unfold LinesCodec.weight at hweight
        simp only [List.length_nil]
        split_ifs at hweight <;> omega

/-- Two recoverable errors of one inner loop have bytes used up between them. -/
theorem Recovers.consumes {i j : ℕ} (hrun : s.status = .running) (hij : i < j)
    (hgoing : ∀ m ≤ j, ¬ ((step limits)^[m] s).Leaves limits)
    (hi : ((step limits)^[i] s).Recovers limits) (hj : ((step limits)^[j] s).Recovers limits) :
    ((step limits)^[j + 1] s).buffer.length < ((step limits)^[i + 1] s).buffer.length := by
  have hrunning : ∀ n ≤ j + 1, ((step limits)^[n] s).status = .running := fun n hn =>
    (inner_fall hrun (fun m hm => hgoing m (by omega))).1
  -- both reports leave the codec discarding, so the fall of the weight is a fall of the buffer
  have hdone : ∀ {n}, n ≤ j → ((step limits)^[n] s).Recovers limits →
      ((step limits)^[n + 1] s).framer.other.isDiscarding = true := by
    intro n hn hrec
    rw [Function.iterate_succ_apply']
    exact hrec.discarding (hrunning n (by omega))
  have hafter : ∀ m < j - i,
      ¬ ((step limits)^[m] ((step limits)^[i + 1] s)).Leaves limits := by
    intro m hm
    rw [← Function.iterate_add_apply]
    exact hgoing _ (by omega)
  have hfall := (inner_fall (hrunning (i + 1) (by omega)) hafter).2
  rw [← Function.iterate_add_apply, show j - i + (i + 1) = j + 1 by omega] at hfall
  simp only [LinesCodec.weight, hdone (le_of_lt hij) hi, hdone le_rfl hj, if_true] at hfall
  omega

end Session

/-- From every framer state and buffer of `n` bytes the inner loop is left within `2 n + 2` calls;
it reports no two oversize lines without using up bytes, and no message without one. -/
theorem innerLoop_ends (limits : Limits) {s : Session} (hrun : s.status = .running) :
    (∃ n < 2 * s.buffer.length + 2,
      ((Session.step limits)^[n] s).status = .running ∧
      ((Session.step limits)^[n] s).Leaves limits ∧
      ∀ m < n, ¬ ((Session.step limits)^[m] s).Leaves limits) ∧
    (∀ i j, i < j → (∀ m ≤ j, ¬ ((Session.step limits)^[m] s).Leaves limits) →
      ((Session.step limits)^[i] s).Recovers limits →
      ((Session.step limits)^[j] s).Recovers limits →
      ((Session.step limits)^[j + 1] s).buffer.length <
        ((Session.step limits)^[i + 1] s).buffer.length) ∧
    ∀ bytes framer left, s.call limits = .ok (.ok (some bytes), framer, left) →
      left.length < s.buffer.length := by
  refine ⟨?_, fun i j hij hgoing hi hj => hi.consumes hrun hij hgoing hj,
    fun bytes framer left => Session.message_consumes⟩
  obtain ⟨n, hn, hleaves, hfirst⟩ := exists_stop_of_fall (fun t => t.status = .running)
    (fun t => t.framer.other.weight t.buffer) (Session.Leaves limits)
    (fun _ => Session.step_weight) hrun
  have hweight : s.framer.other.weight s.buffer ≤ 2 * s.buffer.length + 1 := by
    unfold LinesCodec.weight
    split_ifs <;> omega
  exact ⟨n, by omega, (Session.inner_fall hrun hfirst).1, hleaves, hfirst⟩

/-- With no room for any line, the three bytes of one take at most eight calls. -/
theorem innerLoop_ends_no_room :
    ∃ n < 8, ((Session.step ⟨64, 0, by decide⟩)^[n]
      ⟨.new, [97, 98, 10], [], false, [], .running⟩).Leaves ⟨64, 0, by decide⟩ := by
  obtain ⟨⟨n, hn, -, hleaves, -⟩, -⟩ := innerLoop_ends ⟨64, 0, by decide⟩
    (s := ⟨.new, [97, 98, 10], [], false, [], .running⟩) rfl
  exact ⟨n, hn, hleaves⟩

end HyperRuby.Framing
