import HyperRuby.Framing.Held
import HyperRuby.Framing.Oversize

/-! # Where a counted frame starts

Octet counting is entered at a digit and left with the frame. While the header is read no byte
is used up, so the bytes at hand are still those from the digit on; a frame that is then dropped
was seen to be beyond the limit. The trace of a run keeps both facts for the frame in hand.
-/
namespace HyperRuby.Framing
open Library

/-- The bytes start with a counted frame beyond the limit, by the length it declares or by a
header that takes up the whole limit. -/
inductive LongFrame (limits : Limits) : Bytes → Prop where
  | declared (digits rest : Bytes) (len : ℕ) (lead : digitLed (digits ++ space :: rest) = true)
      (token : space ∉ digits) (value : headerLength limits.wordSize digits = some len)
      (big : limits.maxLength < len) :
      LongFrame limits (digits ++ space :: rest)
  | header (run rest : Bytes) (lead : digitLed (run ++ rest) = true)
      (long : limits.maxLength ≤ run.length) (token : space ∉ run) (line : newline ∉ run) :
      LongFrame limits (run ++ rest)

theorem longFrame_of_far {limits : Limits} {src : Bytes} (hlead : digitLed src = true)
    (hspace : space ∉ src.take limits.maxLength) (hline : newline ∉ src.take limits.maxLength)
    (hfull : limits.maxLength ≤ src.length) (more : Bytes) : LongFrame limits (src ++ more) := by
  have hsplit : src ++ more =
      src.take limits.maxLength ++ (src.drop limits.maxLength ++ more) := by
    rw [← List.append_assoc, List.take_append_drop]
  rw [hsplit]
  refine .header _ _ ?_ (by simp [hfull]) hspace hline
  rw [← hsplit, digitLed_append (ne_nil_of_digitLed hlead)]
  exact hlead

namespace Session
variable {limits : Limits} {s : Session}

theorem read_remaining (s : Session) : s.read.remaining = s.remaining := by
  cases he : s.eof with
  | true =>
    rw [read_eof he]
    rfl
  | false => exact (read_kept he).2.1

theorem step_left {reply : Reply} {framer : Framer} {left : Bytes} (hrun : s.status = .running)
    (hcall : s.call limits = .ok (reply, framer, left)) :
    (s.step limits).remaining = left ++ s.unread.flatten ∧ left <+: (s.step limits).buffer := by
  rw [step_running hrun, hcall]
  rcases reply with error | _ | bytes
  · exact ⟨rfl, List.prefix_rfl⟩
  · refine ⟨read_remaining _, ?_⟩
    rw [handle, read]
    split
    · exact List.prefix_rfl
    · split
      · exact List.prefix_rfl
      · exact List.prefix_append _ _
  · exact ⟨rfl, List.prefix_rfl⟩

/-- The frame in hand at step `n` was entered at step `m`. -/
structure Entered (run : ℕ → Session) (m n : ℕ) : Prop where
  le : m ≤ n
  free : (run m).framer.octetDecoding = none
  held : ∀ k, m < k → k ≤ n → (run k).framer.octetDecoding ≠ none

section Trace
variable {run : ℕ → Session} {m n : ℕ}

theorem Entered.succ (h : Entered run m n) (hnext : (run (n + 1)).framer.octetDecoding ≠ none) :
    Entered run m (n + 1) := by
  refine ⟨Nat.le_succ_of_le h.le, h.free, fun k hm hk => ?_⟩
  rcases Nat.lt_or_ge n k with hlt | hle
  · obtain rfl : k = n + 1 := by omega
    exact hnext
  · exact h.held k hm hle

theorem Entered.unique {m' : ℕ} (h : Entered run m n) (h' : Entered run m' n) : m = m' := by
  rcases Nat.lt_trichotomy m m' with hlt | heq | hlt
  · exact absurd h'.free (h.held m' hlt h'.le)
  · exact heq
  · exact absurd h.free (h'.held m hlt h.le)

/-- What an octet state remembers of the frame it belongs to: all of its bytes while the header
is read, and that it is too long while it is dropped. -/
structure Traced (limits : Limits) (run : ℕ → Session) (n : ℕ) : Prop where
  header : (run n).framer.octetDecoding = some .notDiscarding →
    digitLed (run n).buffer = true ∧
      ∃ m, Entered run m n ∧ (run m).remaining = (run n).remaining
  dropping : ∀ state, (run n).framer.octetDecoding = some state → state ≠ .notDiscarding →
    ∃ m, Entered run m n ∧ LongFrame limits (run m).remaining

theorem Traced.of_free (h : (run n).framer.octetDecoding = none) : Traced limits run n :=
  ⟨fun hmode => by simp [h] at hmode, fun _ hmode => by simp [h] at hmode⟩

theorem Traced.header_enter (h : Traced limits run n)
    (mode : ((run n).framer.enter (run n).buffer).octetDecoding = some .notDiscarding) :
    digitLed (run n).buffer = true ∧
      ∃ m, Entered run m n ∧ (run m).remaining = (run n).remaining := by
  rcases Framer.enter_some mode with hheld | ⟨-, hfree, hlead⟩
  · exact h.header hheld
  · exact ⟨hlead, n, ⟨le_rfl, hfree, fun k hm hk => absurd hk (by omega)⟩, rfl⟩

theorem Traced.dropping_enter (h : Traced limits run n) {state : State}
    (mode : ((run n).framer.enter (run n).buffer).octetDecoding = some state)
    (hstate : state ≠ .notDiscarding) :
    ∃ m, Entered run m n ∧ LongFrame limits (run m).remaining := by
  rcases Framer.enter_some mode with hheld | ⟨hnew, -⟩
  · exact h.dropping state hheld hstate
  · exact absurd hnew hstate

theorem Traced.of_dropping {state : State}
    (hmode : (run (n + 1)).framer.octetDecoding = some state) (hstate : state ≠ .notDiscarding)
    (h : ∃ m, Entered run m n ∧ LongFrame limits (run m).remaining) :
    Traced limits run (n + 1) := by
  obtain ⟨m, hentered, hlong⟩ := h
  refine ⟨fun hheader => ?_, fun _ _ _ => ⟨m, hentered.succ (by simp [hmode]), hlong⟩⟩
  rw [hmode] at hheader
  exact absurd (Option.some.inj hheader) hstate

theorem Traced.long_enter (h : Traced limits run n)
    (mode : ((run n).framer.enter (run n).buffer).octetDecoding = some .notDiscarding)
    (hlong : LongFrame limits (run n).remaining) :
    ∃ m, Entered run m n ∧ LongFrame limits (run m).remaining := by
  obtain ⟨-, m, hentered, hsame⟩ := h.header_enter mode
  refine ⟨m, hentered, ?_⟩
  rw [hsame]
  exact hlong

theorem Traced.of_header (h : Traced limits run n)
    (mode : ((run n).framer.enter (run n).buffer).octetDecoding = some .notDiscarding)
    (hmode : (run (n + 1)).framer.octetDecoding = some .notDiscarding)
    (hbuffer : (run n).buffer <+: (run (n + 1)).buffer)
    (hsame : (run (n + 1)).remaining = (run n).remaining) : Traced limits run (n + 1) := by
  obtain ⟨hlead, m, hentered, hm⟩ := h.header_enter mode
  obtain ⟨more, hmore⟩ := hbuffer
  refine ⟨fun _ => ⟨?_, m, hentered.succ (by simp [hmode]), hm.trans hsame.symm⟩,
    fun state hstate hne => ?_⟩
  · rw [← hmore, digitLed_append (ne_nil_of_digitLed hlead)]
    exact hlead
  · rw [hmode] at hstate
    exact absurd (Option.some.inj hstate).symm hne

variable (hrun : ∀ n, run (n + 1) = (run n).step limits)
include hrun

theorem Traced.step (h : Traced limits run n) (hrunning : (run n).status = .running)
    (hnext : (run (n + 1)).status = .running) : Traced limits run (n + 1) := by
  rcases hcall : (run n).call limits with trap | ⟨reply, framer, left⟩
  · rw [hrun n, step_running hrunning, hcall] at hnext
    cases hnext
  obtain ⟨hremaining, hbuffer⟩ := step_left hrunning hcall
  rw [← hrun n] at hremaining hbuffer
  have hframer : (run (n + 1)).framer = framer := by
    rw [hrun n, step_running hrunning, hcall]
    rcases reply with error | _ | bytes
    · rfl
    · exact read_framer _
    · rfl
  have hfatal : ∀ error, reply = .error error → error.fatal = false := by
    rintro error rfl
    rw [hrun n, step_running hrunning, hcall] at hnext
    simpa [handle] using hnext
  cases called_of_call hcall with
  | line mode going step =>
    exact .of_free (by rw [hframer]; exact enter_none mode)
  | lastLine mode ended step =>
    exact .of_free (by rw [hframer]; exact enter_none mode)
  | @octet state _ next _ mode step =>
    have hmode : (run (n + 1)).framer.octetDecoding = next := by rw [hframer]
    have hbytes : (run n).remaining = (run n).buffer ++ (run n).unread.flatten := rfl
    generalize hsrc : (run n).buffer = src at step
    cases step with
    | skipped | resynced | badLength | overrun => cases hfatal _ rfl
    | complete => exact .of_free hmode
    | skipping chars _ short =>
      exact .of_dropping hmode (by simp) (h.dropping_enter mode (by simp))
    | unsynced _ line => exact .of_dropping hmode (by simp) (h.dropping_enter mode (by simp))
    | tooLong digits rest len token near value big =>
      have hlead := (h.header_enter mode).1
      rw [hsrc] at hlead
      refine .of_dropping hmode (by simp) (h.long_enter mode ?_)
      rw [hbytes, hsrc, List.append_assoc, List.cons_append]
      refine .declared digits _ len ?_ token value big
      rw [← List.cons_append, ← List.append_assoc, digitLed_append (ne_nil_of_digitLed hlead)]
      exact hlead
    | flooded _ line far full =>
      have hlead := (h.header_enter mode).1
      rw [hsrc] at hlead
      refine .of_dropping hmode (by simp) (h.long_enter mode ?_)
      rw [hbytes, hsrc]
      exact longFrame_of_far hlead far (fun hmem => line (List.mem_of_mem_take hmem)) full _
    | incomplete digits body len token near value fits short =>
      exact h.of_header mode hmode (hsrc ▸ hbuffer) (by rw [hremaining, hbytes, hsrc])
    | waiting _ line far room =>
      exact h.of_header mode hmode (hsrc ▸ hbuffer) (by rw [hremaining, hbytes, hsrc])

theorem run_traced (h0 : (run 0).framer.octetDecoding = none) (n : ℕ)
    (hrunning : (run n).status = .running) : Traced limits run n := by
  induction n with
  | zero => exact .of_free h0
  | succ n ih =>
    have hbefore : (run n).status = .running := by
      by_contra hstopped
      rw [hrun n, step_stopped hstopped] at hrunning
      exact hstopped hrunning
    exact (ih hbefore).step hrun hbefore hrunning

end Trace

end Session
end HyperRuby.Framing
