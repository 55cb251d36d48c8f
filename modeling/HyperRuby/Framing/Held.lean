import HyperRuby.Framing.Delivered

/-! # What is held

A buffer that waits for more bytes is within the frame limit, up to the digits of a
header and one read. Only a frame whose body is being dropped keeps a whole read, and
the next call empties it.
-/
namespace HyperRuby.Framing

theorem parseDigits_bounds {w value n : ℕ} {s : Bytes} (h : parseDigits w value s = some n)
    (hvalue : value < 2 ^ w) : value * 10 ^ s.length ≤ n ∧ n < 2 ^ w := by
  induction s generalizing value with
  | nil =>
    obtain rfl : value = n := by simpa [parseDigits] using h
    exact ⟨by simp, hvalue⟩
  | cons b s ih =>
    rw [parseDigits] at h
    split at h
    · cases h
    · rename_i d _
      split at h
      · rename_i hlt
        obtain ⟨hle, hn⟩ := ih h hlt
        refine ⟨le_trans ?_ hle, hn⟩
        calc value * 10 ^ (b :: s).length = value * 10 * 10 ^ s.length := by
              rw [List.length_cons, pow_succ]
              ring
          _ ≤ (value * 10 + d) * 10 ^ s.length := Nat.mul_le_mul_right _ (Nat.le_add_right _ _)
      · cases h

/-- A length that fits 64 bits and starts with a digit that is not zero has at most
twenty digits. -/
theorem headerLength_digits {digits : Bytes} {len : ℕ} (h : headerLength 64 digits = some len)
    (hlead : digitLed digits = true) : digits.length ≤ 20 := by
  unfold headerLength at h
  split_ifs at h
  cases digits with
  | nil => cases hlead
  | cons b s =>
    obtain ⟨hlow, hhigh⟩ : 0x31 ≤ b ∧ b ≤ 0x39 := by
      simpa only [digitLed_cons, leadDigit, Bool.and_eq_true, decide_eq_true_eq] using hlead
    rw [UInt8.le_iff_toNat_le] at hlow hhigh
    simp only [UInt8.reduceToNat] at hlow hhigh
    have hsign : b ≠ 0x2B := by
      rintro rfl
      simp at hlow
    have hdigit : digitValue b = some (b.toNat - 0x30) := by
      rw [digitValue, if_pos]
      simp only [UInt8.le_iff_toNat_le, UInt8.reduceToNat]
      omega
    rw [parseUsize, if_neg hsign, parseDigits, hdigit] at h
    have hfits : 0 * 10 + (b.toNat - 0x30) < 2 ^ 64 := by omega
    simp only [if_pos hfits] at h
    obtain ⟨hle, hlt⟩ := parseDigits_bounds h hfits
    have hpow : 10 ^ s.length < 10 ^ 20 := by
      calc 10 ^ s.length ≤ (0 * 10 + (b.toNat - 0x30)) * 10 ^ s.length :=
            Nat.le_mul_of_pos_left _ (by omega)
        _ ≤ len := hle
        _ < 10 ^ 20 := lt_trans hlt (by norm_num)
    have hs := (Nat.pow_lt_pow_iff_right (by norm_num)).mp hpow
    rw [List.length_cons]
    omega

namespace Session
variable {limits : Limits} {r : ℕ} {s : Session}

/-- Between two reads: the reads to come are short, a header in progress starts with a digit,
and the buffer is bounded unless a body of known length is being dropped. -/
structure Bounded (limits : Limits) (r : ℕ) (s : Session) : Prop where
  reads : ∀ chunk ∈ s.unread, chunk.length ≤ r
  lead : s.status = .running → s.framer.octetDecoding = some .notDiscarding →
    digitLed s.buffer = true
  size : s.status = .running → s.eof = false →
    (∀ chars, s.framer.octetDecoding ≠ some (.discarding chars)) →
    s.buffer.length ≤ limits.maxLength + r + 20

/-- What a call that asks for more bytes leaves behind. -/
structure Held (limits : Limits) (r : ℕ) (framer : Framer) (left : Bytes) : Prop where
  lead : framer.octetDecoding = some .notDiscarding → digitLed left = true
  size : left.length ≤ limits.maxLength + r + 20
  room : (∀ chars, framer.octetDecoding ≠ some (.discarding chars)) →
    left.length ≤ limits.maxLength + 20

theorem enter_none (h : (s.framer.enter s.buffer).octetDecoding = none) :
    s.framer.octetDecoding = none := by
  cases ho : s.framer.octetDecoding with
  | none => rfl
  | some state => rw [Framer.enter_of_some ho, ho] at h; cases h

theorem enter_notDiscarding
    (h : (s.framer.enter s.buffer).octetDecoding = some .notDiscarding) :
    s.framer.octetDecoding = some .notDiscarding ∨
      (s.framer.octetDecoding = none ∧ digitLed s.buffer = true) := by
  cases ho : s.framer.octetDecoding with
  | none =>
    right
    refine ⟨rfl, ?_⟩
    by_contra hlead
    rw [Framer.enter_of_line (by simpa using hlead), ho] at h
    cases h
  | some state =>
    rw [Framer.enter_of_some ho, ho] at h
    exact .inl h

theorem Bounded.digitLed_of_enter (hb : Bounded limits r s) (hrun : s.status = .running)
    (h : (s.framer.enter s.buffer).octetDecoding = some .notDiscarding) :
    digitLed s.buffer = true := by
  rcases enter_notDiscarding h with hold | ⟨-, hnew⟩
  · exact hb.lead hrun hold
  · exact hnew

theorem Bounded.size_of_enter (hb : Bounded limits r s) (hrun : s.status = .running)
    (hgoing : s.eof = false)
    (h : (s.framer.enter s.buffer).octetDecoding = some .notDiscarding ∨
      (s.framer.enter s.buffer).octetDecoding = none) :
    s.buffer.length ≤ limits.maxLength + r + 20 := by
  apply hb.size hrun hgoing
  intro chars hchars
  rw [Framer.enter_of_some hchars, hchars] at h
  rcases h with h | h <;> cases h

theorem Bounded.held (hw : limits.wordSize = 64) (hb : Bounded limits r s)
    (hrun : s.status = .running) (hgoing : s.eof = false) {framer : Framer} {left : Bytes}
    (h : s.call limits = .ok (.ok none, framer, left)) : Held limits r framer left := by
  generalize hr : (Except.ok none : Reply) = reply at h
  cases called_of_call h with
  | octet mode step =>
    generalize hbuffer : s.buffer = src at step
    cases step with
    | skipping chars _ short => exact ⟨by simp, by simp, by simp⟩
    | unsynced _ line => exact ⟨by simp, by simp, by simp⟩
    | flooded _ line far full => exact ⟨by simp, by simp, by simp⟩
    | tooLong digits rest len token near value big =>
      have hsize := hb.size_of_enter hrun hgoing (.inl mode)
      rw [hbuffer, List.length_append, List.length_cons] at hsize
      exact ⟨by simp, by omega, fun hnot => absurd rfl (hnot len)⟩
    | incomplete digits body len token near value fits short =>
      have hlead := hb.digitLed_of_enter hrun mode
      have hne : digits ≠ [] := by
        rintro rfl
        rw [hw] at value
        cases value
      rw [hbuffer] at hlead
      have hdigits : digits.length ≤ 20 := by
        rw [digitLed_append hne] at hlead
        rw [hw] at value
        exact headerLength_digits value hlead
      have hlength : (digits ++ space :: body).length ≤ limits.maxLength + 20 := by
        rw [List.length_append, List.length_cons]
        omega
      exact ⟨fun _ => hlead, by omega, fun _ => hlength⟩
    | waiting _ line far room =>
      have hlead := hb.digitLed_of_enter hrun mode
      rw [hbuffer] at hlead
      exact ⟨fun _ => hlead, by omega, fun _ => by omega⟩
    | complete => split_ifs at hr; cases hr
    | skipped | resynced | badLength | overrun => cases hr
  | line mode going step =>
    have hnone := enter_none mode
    have hlength := step.held (mapError_eq_ok hr.symm)
    refine ⟨fun hlead => ?_, by omega, fun _ => by omega⟩
    cases hnone.symm.trans hlead
  | lastLine mode ended step =>
    rw [hgoing] at ended
    cases ended

theorem octetStep_message {state : State} {src msg left : Bytes} {next : Option State}
    (h : Framer.OctetStep limits state src (.ok (some msg)) next left) :
    state = .notDiscarding ∧ next = none := by
  generalize hr : (Except.ok (some msg) : Reply) = reply at h
  cases h with
  | complete => exact ⟨rfl, rfl⟩
  | _ => cases hr

theorem loopStep_length {maxLength : ℕ} {codec codec' : LinesCodec} {buf rest : Bytes}
    {reply : LinesReply} (h : LinesCodec.LoopStep maxLength codec buf reply codec' rest) :
    rest.length ≤ buf.length := by
  have hweight := h.progress.1
  unfold LinesCodec.weight at hweight
  split_ifs at hweight <;> omega

/-- A call that answers and lets the loop go on ends outside of octet counting, and
what it leaves comes from a buffer that was not being dropped. -/
theorem Bounded.answered (hb : Bounded limits r s) (hrun : s.status = .running) {reply : Reply}
    {framer : Framer} {left : Bytes} (h : s.call limits = .ok (reply, framer, left))
    (hanswer : reply ≠ .ok none) (hrec : ∀ error, reply = .error error → error.fatal = false) :
    framer.octetDecoding = none ∧
      (s.eof = false → left.length ≤ limits.maxLength + r + 20) := by
  cases called_of_call h with
  | octet mode step =>
    match reply, hanswer, hrec, step with
    | .ok none, hanswer, _, _ => exact absurd rfl hanswer
    | .error error, _, hrec, step =>
      have hfatal := Framer.octetStep_fatal step
      rw [hrec error rfl] at hfatal
      cases hfatal
    | .ok (some msg), _, _, step =>
      have hlength := (Framer.octetStep_length step).1
      obtain ⟨rfl, rfl⟩ := octetStep_message step
      exact ⟨rfl, fun hgoing => hlength.trans (hb.size_of_enter hrun hgoing (.inl mode))⟩
  | line mode going step =>
    exact ⟨enter_none mode, fun hgoing =>
      (loopStep_length step).trans (hb.size_of_enter hrun hgoing (.inr mode))⟩
  | lastLine mode ended step =>
    refine ⟨enter_none mode, fun hgoing => ?_⟩
    rw [hgoing] at ended
    cases ended

theorem bounded_read {t : Session} (hreads : ∀ chunk ∈ t.unread, chunk.length ≤ r)
    (hheld : t.eof = false → Held limits r t.framer t.buffer) : Bounded limits r t.read := by
  by_cases he : t.eof = true
  · rw [read_eof he]
    exact ⟨hreads, by simp, by simp⟩
  have hgoing : t.eof = false := by simpa using he
  have hh := hheld hgoing
  cases hu : t.unread with
  | nil =>
    rw [read_last hgoing hu]
    exact ⟨by simp [hu], fun _ => hh.lead, by simp⟩
  | cons chunk unread =>
    rw [read_chunk hgoing hu]
    rw [hu] at hreads
    have hchunk := hreads chunk List.mem_cons_self
    refine ⟨fun c hc => hreads c (List.mem_cons_of_mem _ hc), fun _ hmode => ?_, fun _ _ hnot => ?_⟩
    · have hlead := hh.lead hmode
      exact (digitLed_append (ne_nil_of_digitLed hlead) chunk).trans hlead
    · have hroom := hh.room hnot
      show (t.buffer ++ chunk).length ≤ _
      rw [List.length_append]
      omega

theorem Bounded.stopped {t : Session} (hreads : ∀ chunk ∈ t.unread, chunk.length ≤ r)
    (h : t.status ≠ .running) : Bounded limits r t :=
  ⟨hreads, fun hrun => absurd hrun h, fun hrun => absurd hrun h⟩

theorem Bounded.step (hw : limits.wordSize = 64) (hb : Bounded limits r s) :
    Bounded limits r (s.step limits) := by
  by_cases hrun : s.status = .running
  · rw [step_running hrun]
    rcases hcall : s.call limits with trap | ⟨error | _ | bytes, framer, left⟩
    · exact .stopped hb.reads (by simp [handle])
    · by_cases hfatal : error.fatal = true
      · exact .stopped hb.reads (by simp [handle, hfatal])
      · obtain ⟨hnone, hsize⟩ := hb.answered hrun hcall (by simp)
          (by rintro e he; cases he; simpa using hfatal)
        exact ⟨hb.reads, fun _ hlead => by simp [handle, hnone] at hlead,
          fun _ hgoing _ => hsize hgoing⟩
    · exact bounded_read hb.reads (fun hgoing => hb.held hw hrun hgoing hcall)
    · obtain ⟨hnone, hsize⟩ := hb.answered hrun hcall (by simp) (by simp)
      exact ⟨hb.reads, fun _ hlead => by simp [handle, hnone] at hlead,
        fun _ hgoing _ => hsize hgoing⟩
  · rwa [step_stopped hrun]

theorem start_bounded (limits : Limits) {chunks : List Bytes}
    (h : ∀ chunk ∈ chunks, chunk.length ≤ r) : Bounded limits r (start chunks) :=
  ⟨h, fun _ hlead => by simp [start, Framer.new] at hlead, fun _ _ _ => Nat.zero_le _⟩

theorem run_bounded (hw : limits.wordSize = 64) {chunks : List Bytes}
    (h : ∀ chunk ∈ chunks, chunk.length ≤ r) (n : ℕ) :
    Bounded limits r ((Session.step limits)^[n] (start chunks)) := by
  induction n with
  | zero => exact start_bounded limits h
  | succ n ih =>
    rw [Function.iterate_succ_apply']
    exact ih.step hw

end Session

/-- Whenever the loop goes to read again, the buffer holds at most a frame, a read and
the digits of a length. -/
theorem buffer_bounded {limits : Limits} (hw : limits.wordSize = 64) {r : ℕ} {chunks : List Bytes}
    (hchunks : ∀ chunk ∈ chunks, chunk.length ≤ r) (n : ℕ) {framer : Framer} {left : Bytes}
    (hrun : ((Session.step limits)^[n] (.start chunks)).status = .running)
    (hgoing : ((Session.step limits)^[n] (.start chunks)).eof = false)
    (hcall : ((Session.step limits)^[n] (.start chunks)).call limits =
      .ok (.ok none, framer, left)) :
    left.length ≤ limits.maxLength + r + 20 :=
  ((Session.run_bounded hw hchunks n).held hw hrun hgoing hcall).size

/-- The frame `3 abc` in three reads of at most two bytes, its last byte still to come. -/
theorem buffer_bounded_header :
    ((Session.step ⟨64, 4, by decide⟩)^[3] (.start [[51], [32, 97], [98]])).call
        ⟨64, 4, by decide⟩ = .ok (.ok none, ⟨.new, some .notDiscarding⟩, [51, 32, 97, 98]) ∧
    ([51, 32, 97, 98] : Bytes).length ≤ 4 + 2 + 20 :=
  ⟨by decide, @buffer_bounded ⟨64, 4, by decide⟩ rfl 2 [[51], [32, 97], [98]] (by decide) 3
    ⟨.new, some .notDiscarding⟩ [51, 32, 97, 98] (by decide) (by decide) (by decide)⟩

end HyperRuby.Framing
