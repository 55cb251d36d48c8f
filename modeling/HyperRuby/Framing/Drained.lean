import HyperRuby.Framing.Reference

/-! # Buffers with nothing left to say

A call that asks for more bytes leaves a buffer on which the reference is silent
too, and at end of stream a line left in such a buffer is released as the
reference reads it.
-/
namespace HyperRuby.Framing

/-- The framer has said all it can about the buffer while the stream goes on. -/
structure Drained (limits : Limits) (framer : Framer) (buffer : Bytes) : Prop where
  line : framer.octetDecoding = none →
    newline ∉ buffer ∧ buffer.length ≤ limits.maxLength ∧ digitLed buffer = false
  header : framer.octetDecoding = some .notDiscarding → headerNext limits buffer = none

section Drained
variable {limits : Limits} {framer : Framer}

theorem Drained.of_nil (h : framer.octetDecoding = none) : Drained limits framer [] := by
  constructor
  · intro _
    simp
  · intro ho
    rw [h] at ho
    cases ho

theorem octetStep_drained {state : State} {src left : Bytes} {after : Option State}
    (h : Framer.OctetStep limits state src (.ok none) after left) :
    Drained limits { framer with octetDecoding := after } left := by
  generalize hr : (Except.ok none : Reply) = reply at h
  cases h with
  | skipping => exact ⟨by simp, by simp⟩
  | unsynced => exact ⟨by simp, by simp⟩
  | tooLong => exact ⟨by simp, by simp⟩
  | flooded => exact ⟨by simp, by simp⟩
  | incomplete digits body len token near value fits short =>
    refine ⟨by simp, fun _ => ?_⟩
    rw [headerNext_space token near, value]
    simp only [frameNext, if_neg (not_lt.mpr fits), if_neg (not_le.mpr short)]
  | waiting _ line far =>
    refine ⟨by simp, fun _ => ?_⟩
    rw [headerNext_far far, eolNext, if_neg line]
  | complete => split_ifs at hr; cases hr
  | skipped | resynced | badLength | overrun => cases hr

theorem scanLine_drained {cursor : ℕ} {buffer : Bytes} (ho : framer.octetDecoding = none)
    (hd : digitLed buffer = false)
    (hn : (LinesCodec.scanLine limits.maxLength cursor buffer).1 = .ok none) :
    Drained limits
      { framer with other := (LinesCodec.scanLine limits.maxLength cursor buffer).2.1 }
      (LinesCodec.scanLine limits.maxLength cursor buffer).2.2 := by
  rcases LinesCodec.scanLine_none hn with ⟨hclear, hlen, he⟩
  rw [he]
  refine ⟨fun _ => ⟨hclear, hlen, hd⟩, fun h => ?_⟩
  rw [ho] at h
  cases h

theorem readLine_drained {buffer : Bytes} (ho : framer.octetDecoding = none)
    (hd : digitLed buffer = false)
    (hcut : framer.other.isDiscarding = true → ∀ rest ∈ afterNewline buffer, digitLed rest = false)
    (hn : (framer.other.readLine limits.maxLength buffer).1 = .ok none) :
    Drained limits
      { framer with other := (framer.other.readLine limits.maxLength buffer).2.1 }
      (framer.other.readLine limits.maxLength buffer).2.2 := by
  cases hdis : framer.other.isDiscarding with
  | false =>
    have he : framer.other.readLine limits.maxLength buffer =
        LinesCodec.scanLine limits.maxLength framer.other.nextIndex buffer := by
      rw [LinesCodec.readLine, hdis]
      rfl
    rw [he] at hn ⊢
    exact scanLine_drained ho hd hn
  | true =>
    have he : framer.other.readLine limits.maxLength buffer =
        LinesCodec.skipLine limits.maxLength buffer := if_pos hdis
    rw [he] at hn ⊢
    rw [LinesCodec.skipLine] at hn ⊢
    cases hrest : afterNewline buffer with
    | some rest =>
      rw [hrest] at hn
      exact scanLine_drained ho (hcut hdis rest hrest) hn
    | none => exact Drained.of_nil ho

section Release
variable {buffer : Bytes} (codec : LinesCodec) (hclear : newline ∉ buffer)
  (hlen : buffer.length ≤ limits.maxLength)
include hclear hlen

theorem release_drained :
    LinesCodec.release (codec.readLine limits.maxLength buffer) =
      if codec.isDiscarding then (.ok none, ⟨0, true⟩, [])
      else if buffer = [] ∨ buffer = [carriageReturn] then (.ok none, ⟨0, false⟩, buffer)
      else (utf8 (withoutCarriageReturn buffer), ⟨0, false⟩, []) := by
  have htake : buffer.take (limits.maxLength + 1) = buffer := List.take_of_length_le (by omega)
  rw [LinesCodec.readLine]
  cases codec.isDiscarding with
  | true => simp only [if_true, LinesCodec.skipLine, afterNewline_eq_none.mpr hclear,
      LinesCodec.release, true_or]
  | false => simp only [Bool.false_eq_true, if_false, LinesCodec.scanLine, htake,
      position_eq_none.mpr hclear, if_neg (not_lt.mpr hlen), LinesCodec.release]

/-- At end of stream a drained line is released, and nothing of it is left to report. -/
theorem release_agrees (hd : digitLed buffer = false) :
    Agrees limits (codec.mode, buffer)
      ((LinesCodec.release (codec.readLine limits.maxLength buffer)).1.mapError lineError)
      ((LinesCodec.release (codec.readLine limits.maxLength buffer)).2.1.mode,
        (LinesCodec.release (codec.readLine limits.maxLength buffer)).2.2) ∧
    ((LinesCodec.release (codec.readLine limits.maxLength buffer)).1 = .ok none →
      next limits (codec.mode, buffer) = none) := by
  rw [release_drained codec hclear hlen, LinesCodec.mode]
  cases codec.isDiscarding with
  | true =>
    have hn : next limits (.line, buffer) = none := by
      rw [next_line, afterNewline_eq_none.mpr hclear]
      rfl
    exact ⟨hn.symm, fun _ => hn⟩
  | false =>
    have htake : buffer.take (limits.maxLength + 1) = buffer := List.take_of_length_le (by omega)
    have hline : next limits (.fresh, buffer) =
        if buffer = [] ∨ buffer = [carriageReturn] then none
        else verdict (withoutCarriageReturn buffer) [] := by
      rw [next, freshNext_line hd, lineNext, htake, position_eq_none.mpr hclear]
      simp only [if_neg (not_lt.mpr hlen)]
    simp only [Bool.false_eq_true, if_false]
    split_ifs at hline ⊢ with hempty
    · exact ⟨rfl, fun _ => hline⟩
    · exact ⟨utf8_agrees hline, fun h => absurd h (LinesCodec.utf8_ne_none _)⟩

theorem release_rest (ho : framer.octetDecoding = none) (hd : digitLed buffer = false) :
    Drained limits
      { framer with
        other := (LinesCodec.release (codec.readLine limits.maxLength buffer)).2.1 }
      (LinesCodec.release (codec.readLine limits.maxLength buffer)).2.2 := by
  rw [release_drained codec hclear hlen]
  split_ifs with hdis hempty
  · exact Drained.of_nil ho
  · exact ⟨fun _ => ⟨hclear, hlen, hd⟩, fun h => by rw [ho] at h; cases h⟩
  · exact Drained.of_nil ho

end Release
end Drained

end HyperRuby.Framing
