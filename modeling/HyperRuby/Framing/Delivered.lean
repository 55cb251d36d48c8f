import HyperRuby.Framing.Session

/-! # What is delivered

A message that leaves the framer is UTF-8 and within the frame limit, on every stream
and whatever state the framer and the search cursor are in.
-/
namespace HyperRuby.Framing

/-- What the consumers of a stream message rely on. -/
structure Deliverable (maxLength : ℕ) (msg : Bytes) : Prop where
  utf8 : fromUtf8 msg = true
  short : msg.length ≤ maxLength

theorem withoutCarriageReturn_length (line : Bytes) :
    (withoutCarriageReturn line).length ≤ line.length := by
  unfold withoutCarriageReturn
  split_ifs
  · rw [List.length_dropLast]
    omega
  · exact le_rfl

theorem deliverable_of_utf8 {maxLength : ℕ} {line msg : Bytes} (hline : line.length ≤ maxLength)
    (h : utf8 (withoutCarriageReturn line) = .ok (some msg)) : Deliverable maxLength msg := by
  unfold utf8 at h
  split_ifs at h with hutf8
  cases h
  exact ⟨hutf8, (withoutCarriageReturn_length line).trans hline⟩

namespace LinesCodec.LoopStep
variable {maxLength : ℕ} {codec codec' : LinesCodec} {buf rest : Bytes} {reply : LinesReply}

theorem deliverable (h : LoopStep maxLength codec buf reply codec' rest) {msg : Bytes}
    (hreply : reply = .ok (some msg)) : Deliverable maxLength msg := by
  induction h with
  | passed p inside again ih => exact ih hreply
  | dropped more again ih => exact ih hreply
  | emptied => cases hreply
  | line p near inside =>
    apply deliverable_of_utf8 _ hreply
    rw [List.length_take]
    omega
  | exceeded idle long => cases hreply
  | waiting short => cases hreply

theorem held (h : LoopStep maxLength codec buf reply codec' rest) (hreply : reply = .ok none) :
    rest.length ≤ maxLength := by
  induction h with
  | passed p inside again ih => exact ih hreply
  | dropped more again ih => exact ih hreply
  | emptied => exact Nat.zero_le _
  | line p near inside => exact absurd hreply (utf8_ne_none _)
  | exceeded idle long => cases hreply
  | waiting short => exact short

theorem release_deliverable (h : LoopStep maxLength codec buf reply codec' rest) {msg : Bytes}
    (hmsg : (release (reply, codec', rest)).1 = .ok (some msg)) : Deliverable maxLength msg := by
  match reply, h with
  | .error error, h => cases hmsg
  | .ok (some bytes), h => exact h.deliverable hmsg
  | .ok none, h =>
    rcases release_none codec' rest with hkept | ⟨-, hreleased⟩
    · rw [hkept] at hmsg
      cases hmsg
    · rw [hreleased] at hmsg
      exact deliverable_of_utf8 (h.held rfl) hmsg

end LinesCodec.LoopStep

theorem octetStep_deliverable {limits : Limits} {state : State} {src left msg : Bytes}
    {next : Option State}
    (h : Framer.OctetStep limits state src (.ok (some msg)) next left) :
    Deliverable limits.maxLength msg := by
  generalize hr : (Except.ok (some msg) : Reply) = reply at h
  cases h with
  | complete digits body rest token near value fits =>
    split_ifs at hr with hutf8
    cases hr
    exact ⟨hutf8, fits⟩
  | _ => cases hr

theorem mapError_eq_ok {reply : LinesReply} {answer : Option Bytes}
    (h : reply.mapError lineError = .ok answer) : reply = .ok answer := by
  cases reply with
  | error error => cases h
  | ok value => exact congrArg _ (Except.ok.inj h)

namespace Session

theorem call_deliverable {limits : Limits} {s : Session} {msg left : Bytes} {framer : Framer}
    (h : s.call limits = .ok (.ok (some msg), framer, left)) :
    Deliverable limits.maxLength msg := by
  generalize hr : (Except.ok (some msg) : Reply) = reply at h
  cases called_of_call h with
  | octet mode step =>
    subst hr
    exact octetStep_deliverable step
  | line mode going step => exact step.deliverable (mapError_eq_ok hr.symm)
  | lastLine mode ended step => exact step.release_deliverable (mapError_eq_ok hr.symm)

theorem read_events (s : Session) : s.read.events = s.events := by
  unfold read
  split
  · rfl
  · split <;> rfl

theorem mem_messages {s : Session} {msg : Bytes} : msg ∈ s.messages ↔ .message msg ∈ s.events := by
  unfold messages
  rw [List.mem_filterMap]
  constructor
  · rintro ⟨event, hmem, hevent⟩
    cases event with
    | message bytes => cases hevent; exact hmem
    | rejected error => cases hevent
  · intro hmem
    exact ⟨_, hmem, rfl⟩

theorem step_messages {limits : Limits} {s : Session} {msg : Bytes}
    (h : msg ∈ (s.step limits).messages) :
    msg ∈ s.messages ∨ ∃ framer left, s.call limits = .ok (.ok (some msg), framer, left) := by
  rw [mem_messages] at h ⊢
  by_cases hrun : s.status = .running
  · rw [step_running hrun] at h
    rcases hcall : s.call limits with trap | ⟨error | _ | bytes, framer, left⟩
    · rw [hcall] at h
      exact .inl h
    · rw [hcall] at h
      rcases List.mem_append.mp h with hold | hnew
      · exact .inl hold
      · simp at hnew
    · rw [hcall, handle, read_events] at h
      exact .inl h
    · rw [hcall] at h
      rcases List.mem_append.mp h with hold | hnew
      · exact .inl hold
      · obtain rfl : msg = bytes := by simpa using hnew
        exact .inr ⟨framer, left, rfl⟩
  · rw [step_stopped hrun] at h
    exact .inl h

theorem messages_deliverable (limits : Limits) (chunks : List Bytes) (n : ℕ) {msg : Bytes}
    (h : msg ∈ ((step limits)^[n] (start chunks)).messages) : Deliverable limits.maxLength msg := by
  induction n with
  | zero => cases h
  | succ n ih =>
    rw [Function.iterate_succ_apply'] at h
    rcases step_messages h with hold | ⟨framer, left, hcall⟩
    · exact ih hold
    · exact call_deliverable hcall

end Session

/-- At every point of every stream, a message returned by the framer and every message
delivered so far can be taken as text without a second check. -/
theorem delivered_within_limits (limits : Limits) (chunks : List Bytes) (n : ℕ) :
    (∀ msg framer left,
      ((Session.step limits)^[n] (.start chunks)).call limits = .ok (.ok (some msg), framer, left) →
        fromUtf8 msg = true ∧ msg.length ≤ limits.maxLength) ∧
    ∀ msg ∈ ((Session.step limits)^[n] (.start chunks)).messages,
      fromUtf8 msg = true ∧ msg.length ≤ limits.maxLength := by
  constructor
  · intro msg framer left h
    have hmsg := Session.call_deliverable h
    exact ⟨hmsg.utf8, hmsg.short⟩
  · intro msg h
    have hmsg := Session.messages_deliverable limits chunks n h
    exact ⟨hmsg.utf8, hmsg.short⟩

/-- A counted frame in two reads, behind a line that was too long. -/
theorem delivered_within_limits_recovered :
    [97, 98, 99] ∈ ((Session.step ⟨64, 4, by decide⟩)^[6]
      (.start [[97, 97, 97, 97, 97, 10, 51], [32, 97, 98, 99]])).messages ∧
    fromUtf8 [97, 98, 99] = true ∧ ([97, 98, 99] : Bytes).length ≤ 4 :=
  ⟨by decide, (delivered_within_limits ⟨64, 4, by decide⟩
    [[97, 97, 97, 97, 97, 10, 51], [32, 97, 98, 99]] 6).2 [97, 98, 99] (by decide)⟩

end HyperRuby.Framing
