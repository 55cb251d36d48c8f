import HyperRuby.Framing.Session

/-! # An oversize frame is dropped exactly

The header of a counted frame beyond the limit is read and its body counted down, read
by read. Nothing is delivered; the one rejection comes when header, space and body are
used up, and the bytes behind them are still there.
-/
namespace HyperRuby.Framing
open Library

/-- A counted frame that is too long to carry and whose header can still be read. -/
structure Oversize (limits : Limits) (n : ℕ) (body : Bytes) : Prop where
  big : limits.maxLength < n
  representable : n < 2 ^ limits.wordSize
  digits : (decimal n).length < limits.maxLength
  length : body.length = n

namespace Oversize
variable {limits : Limits} {n : ℕ} {body : Bytes}

theorem headerLength_eq (h : Oversize limits n body) :
    headerLength limits.wordSize (decimal n) = some n := by
  have h0 : n ≠ 0 := Nat.ne_of_gt (Nat.zero_lt_of_lt h.big)
  rw [headerLength, fromUtf8_decimal, if_pos rfl]
  exact parseUsize_decimal h0 h.representable

theorem space_mem_take (h : Oversize limits n body) (t : Bytes) :
    space ∈ (decimal n ++ space :: t).take limits.maxLength := by
  obtain ⟨t', ht⟩ := take_split h.digits t
  rw [ht]
  simp

theorem octetStep_header (h : Oversize limits n body) {t left : Bytes} {reply : Reply}
    {next : Option State}
    (hstep : Framer.OctetStep limits .notDiscarding (decimal n ++ space :: t) reply next left) :
    reply = .ok none ∧ next = some (.discarding n) ∧ left = t := by
  have hvalue := h.headerLength_eq
  have hnear := h.space_mem_take t
  have hbig := h.big
  generalize hsrc : decimal n ++ space :: t = src at hstep hnear
  -- the first space ends the header in every arm that reads one
  have hheader : ∀ {digits rest : Bytes}, space ∉ digits → src = digits ++ space :: rest →
      digits = decimal n ∧ rest = t := by
    intro digits rest htoken hsplit
    exact split_unique (hsplit.symm.trans hsrc.symm) htoken (space_not_mem_decimal n)
  cases hstep with
  | badLength digits rest token near value =>
    obtain ⟨rfl, rfl⟩ := hheader token rfl
    cases hvalue.symm.trans value
  | tooLong digits rest len token near value big =>
    obtain ⟨rfl, rfl⟩ := hheader token rfl
    cases hvalue.symm.trans value
    exact ⟨rfl, rfl, rfl⟩
  | complete digits msg rest token near value fits =>
    obtain ⟨rfl, -⟩ := hheader token rfl
    cases hvalue.symm.trans value
    omega
  | incomplete digits rest len token near value fits short =>
    obtain ⟨rfl, -⟩ := hheader token rfl
    cases hvalue.symm.trans value
    omega
  | overrun p rest line far => exact absurd hnear far
  | waiting _ line far room => exact absurd hnear far
  | flooded _ line far full => exact absurd hnear far

theorem octetStep_digits (h : Oversize limits n body) {src t left : Bytes} {reply : Reply}
    {next : Option State} (hsrc : decimal n = src ++ t)
    (hstep : Framer.OctetStep limits .notDiscarding src reply next left) :
    reply = .ok none ∧ next = some .notDiscarding ∧ left = src := by
  have hmem : ∀ b ∈ src, b ∈ decimal n := by
    intro b hb
    rw [hsrc]
    exact List.mem_append_left _ hb
  have hspace : space ∉ src := fun hs => space_not_mem_decimal n (hmem _ hs)
  have hnewline : newline ∉ src := fun hs => newline_not_mem_decimal n (hmem _ hs)
  have hlength : src.length < limits.maxLength := by
    have := h.digits
    rw [hsrc, List.length_append] at this
    omega
  cases hstep with
  | badLength | tooLong | complete | incomplete => simp at hspace
  | overrun => simp at hnewline
  | waiting _ line far room => exact ⟨rfl, rfl, rfl⟩
  | flooded _ line far full => omega

end Oversize

theorem octetStep_discarding {limits : Limits} {chars : ℕ} {src left : Bytes} {reply : Reply}
    {next : Option State}
    (h : Framer.OctetStep limits (.discarding chars) src reply next left) :
    (src.length < chars ∧ reply = .ok none ∧ next = some (.discarding (chars - src.length)) ∧
      left = []) ∨
    (chars ≤ src.length ∧ reply = .error (fatalError .oversize) ∧ next = none ∧
      left = src.drop chars) := by
  cases h with
  | skipping _ _ short => exact .inl ⟨short, rfl, rfl, rfl⟩
  | skipped body rest => exact .inr ⟨by simp, rfl, rfl, by simp⟩

namespace Session
variable {limits : Limits} {n : ℕ} {body tail : Bytes} {s : Session}

/-- The bytes that no call has used up. -/
def remaining (s : Session) : Bytes := s.buffer ++ s.unread.flatten

/-- The three phases of dropping a frame. -/
inductive Phase (n : ℕ) (body tail : Bytes) (s : Session) : Prop where
  | header (running : s.status = .running) (going : s.eof = false) (silent : s.events = [])
      (mode : (s.framer = .new ∧ s.buffer = []) ∨
        (s.framer.enter s.buffer).octetDecoding = some .notDiscarding)
      (rest : s.remaining = decimal n ++ space :: (body ++ tail))
  | dropping (dropped left : Bytes) (running : s.status = .running)
      (ended : s.eof = true → s.unread = []) (silent : s.events = [])
      (mode : s.framer.octetDecoding = some (.discarding left.length))
      (split : body = dropped ++ left) (rest : s.remaining = left ++ tail)
  | done (closed : s.status = .closed)
      (rejected : s.events = [.rejected (fatalError .oversize)])
      (mode : s.framer.octetDecoding = none) (rest : s.remaining = tail)

theorem read_kept (going : s.eof = false) :
    s.read.framer = s.framer ∧ s.read.remaining = s.remaining ∧ s.read.events = s.events ∧
      s.read.status = s.status ∧ (s.read.eof = true → s.read.unread = []) := by
  cases hu : s.unread with
  | nil =>
    rw [read_last going hu]
    exact ⟨rfl, rfl, rfl, rfl, fun _ => hu⟩
  | cons chunk unread =>
    rw [read_chunk going hu]
    refine ⟨rfl, ?_, rfl, rfl, fun he => absurd (going.symm.trans he) (by simp)⟩
    simp [remaining, hu]

section Waits
variable {framer : Framer} {left : Bytes} (running : s.status = .running) (going : s.eof = false)
  (hcall : s.call limits = .ok (.ok none, framer, left))
include running going hcall

theorem step_kept :
    (s.step limits).framer = framer ∧ (s.step limits).remaining = left ++ s.unread.flatten ∧
      (s.step limits).events = s.events ∧ (s.step limits).status = .running ∧
      ((s.step limits).eof = true → (s.step limits).unread = []) := by
  rw [step_running running, hcall, ← running]
  exact read_kept going

theorem step_chunk {chunk : Bytes} {unread : List Bytes} (hunread : s.unread = chunk :: unread) :
    s.step limits = { s with framer := framer, buffer := left ++ chunk, unread := unread } := by
  rw [step_running running, hcall]
  exact read_chunk going hunread

end Waits

theorem exists_chunk {b : UInt8} {bs : Bytes} (h : s.unread.flatten = bs ++ b :: tail) :
    ∃ chunk unread, s.unread = chunk :: unread := by
  cases hu : s.unread with
  | nil =>
    rw [hu] at h
    simp at h
  | cons chunk unread => exact ⟨chunk, unread, rfl⟩

section Steps
variable (h : Oversize limits n body)
include h

theorem header_step_new (running : s.status = .running) (going : s.eof = false)
    (silent : s.events = []) (fresh : s.framer = .new) (empty : s.buffer = [])
    (rest : s.remaining = decimal n ++ space :: (body ++ tail)) :
    Phase n body tail (s.step limits) := by
  have hcall : s.call limits = .ok (.ok none, .new, []) := by
    rw [call, if_neg (by simp [going]), fresh, empty]
    exact Framer.decode_nil limits
  have hstream : s.unread.flatten = decimal n ++ space :: (body ++ tail) := by
    rw [← rest, remaining, empty]
    rfl
  obtain ⟨chunk, unread, hunread⟩ := exists_chunk hstream
  rw [step_chunk running going hcall hunread]
  have hremaining : chunk ++ unread.flatten = decimal n ++ space :: (body ++ tail) := by
    rw [← hstream, hunread, List.flatten_cons]
  refine .header running going silent ?_ hremaining
  by_cases hchunk : chunk = []
  · exact .inl ⟨rfl, hchunk⟩
  · right
    have h0 : n ≠ 0 := Nat.ne_of_gt (Nat.zero_lt_of_lt h.big)
    have hlead : digitLed chunk = true := by
      rw [← digitLed_append hchunk unread.flatten, hremaining,
        digitLed_append (decimal_ne_nil h0), digitLed_decimal h0]
    show (Framer.new.enter ([] ++ chunk)).octetDecoding = _
    rw [List.nil_append, Framer.enter_of_digit rfl hlead]

theorem header_step (running : s.status = .running) (going : s.eof = false)
    (silent : s.events = [])
    (mode : (s.framer.enter s.buffer).octetDecoding = some .notDiscarding)
    (rest : s.remaining = decimal n ++ space :: (body ++ tail)) :
    Phase n body tail (s.step limits) := by
  obtain ⟨reply, next, left, hcall, hstep⟩ := call_octet limits mode
  rcases split_cut rest with ⟨t, hbuffer, htail⟩ | ⟨t, hdigits, hunread⟩
  · -- the space has arrived
    rw [hbuffer] at hstep
    obtain ⟨rfl, rfl, rfl⟩ := h.octetStep_header hstep
    obtain ⟨hframer, hremaining, hevents, hstatus, hended⟩ := step_kept running going hcall
    refine .dropping [] body hstatus hended (hevents.trans silent) ?_ rfl ?_
    · rw [hframer, h.length]
    · rw [hremaining, htail]
  · obtain ⟨rfl, rfl, rfl⟩ := h.octetStep_digits hdigits hstep
    obtain ⟨chunk, unread, hchunk⟩ := exists_chunk hunread
    rw [step_chunk running going hcall hchunk]
    refine .header running going silent (.inr ?_) ?_
    · rw [Framer.enter_of_some rfl]
    · rw [← rest, remaining, remaining, hchunk]
      simp

omit h in
/-- The countdown goes by the bytes in the buffer, and stops at the last byte of the body. -/
theorem dropping_step {dropped left : Bytes} (running : s.status = .running)
    (ended : s.eof = true → s.unread = []) (silent : s.events = [])
    (mode : s.framer.octetDecoding = some (.discarding left.length))
    (split : body = dropped ++ left) (rest : s.remaining = left ++ tail) :
    Phase n body tail (s.step limits) := by
  obtain ⟨reply, next, after, hcall, hstep⟩ :=
    call_octet limits ((congrArg _ (Framer.enter_of_some mode _)).trans mode)
  rcases octetStep_discarding hstep with ⟨hshort, rfl, rfl, rfl⟩ | ⟨hlong, rfl, rfl, rfl⟩
  · obtain ⟨more, rfl, hunread⟩ : ∃ more, left = s.buffer ++ more ∧
        s.unread.flatten = more ++ tail := by
      rcases List.append_eq_append_iff.mp rest with ⟨t, ht, hflat⟩ | ⟨t, ht, -⟩
      · exact ⟨t, ht, hflat⟩
      · rw [ht, List.length_append] at hshort
        omega
    have going : s.eof = false := by
      by_contra he
      have hnil := ended (by simpa using he)
      rw [hnil] at hunread
      have hmore : more = [] := (List.append_eq_nil_iff.mp hunread.symm).1
      simp [hmore] at hshort
    obtain ⟨hframer, hremaining, hevents, hstatus, hended⟩ := step_kept running going hcall
    refine .dropping (dropped ++ s.buffer) more hstatus hended (hevents.trans silent) ?_ ?_ ?_
    · rw [hframer, List.length_append, Nat.add_sub_cancel_left]
    · rw [split, List.append_assoc]
    · rw [hremaining, List.nil_append, hunread]
  · rw [step_running running, hcall]
    refine .done rfl ?_ rfl ?_
    · show s.events ++ _ = _
      rw [silent]
      rfl
    · show s.buffer.drop left.length ++ s.unread.flatten = tail
      have hdrop := congrArg (List.drop left.length) rest
      rwa [remaining, List.drop_append_of_le_length hlong, List.drop_left] at hdrop

theorem phase_step (hphase : Phase n body tail s) : Phase n body tail (s.step limits) := by
  cases hphase with
  | header running going silent mode rest =>
    rcases mode with ⟨fresh, empty⟩ | mode
    · exact header_step_new h running going silent fresh empty rest
    · exact header_step h running going silent mode rest
  | dropping dropped left running ended silent mode split rest =>
    exact dropping_step running ended silent mode split rest
  | done closed rejected mode rest =>
    rw [step_stopped (by simp [closed])]
    exact .done closed rejected mode rest

theorem run_phase {chunks : List Bytes}
    (hchunks : chunks.flatten = decimal n ++ space :: (body ++ tail)) (m : ℕ) :
    Phase n body tail ((Session.step limits)^[m] (start chunks)) := by
  induction m with
  | zero => exact .header rfl rfl rfl (.inl ⟨rfl, rfl⟩) hchunks
  | succ m ih =>
    rw [Function.iterate_succ_apply']
    exact phase_step h ih

end Steps

theorem Phase.countdown (h : Phase n body tail s) {k : ℕ}
    (hmode : s.framer.octetDecoding = some (.discarding k)) :
    ∃ dropped left, body = dropped ++ left ∧ left.length = k ∧ s.remaining = left ++ tail := by
  cases h with
  | header running going silent mode rest =>
    rcases mode with ⟨fresh, -⟩ | mode
    · rw [fresh] at hmode
      cases hmode
    · rw [Framer.enter_of_some hmode] at mode
      cases hmode.symm.trans mode
  | dropping dropped left running ended silent mode split rest =>
    cases mode.symm.trans hmode
    exact ⟨dropped, left, split, rfl, rest⟩
  | done closed rejected mode rest => cases mode.symm.trans hmode

end Session

/-- A frame that is too long gives one fatal rejection and nothing else, however it is cut.
When it comes, the bytes left are those of the tail; and at every point before, the
countdown is the number of bytes of the body still to be dropped. -/
theorem oversize_discarded {limits : Limits} {n : ℕ} {body tail : Bytes} {chunks : List Bytes}
    (hbig : limits.maxLength < n) (hword : n < 2 ^ limits.wordSize)
    (hdigits : (decimal n).length < limits.maxLength) (hbody : body.length = n)
    (hchunks : chunks.flatten = decimal n ++ space :: (body ++ tail)) :
    (serveStream limits chunks).status = .closed ∧
    (serveStream limits chunks).events = [.rejected (fatalError .oversize)] ∧
    (serveStream limits chunks).buffer ++ (serveStream limits chunks).unread.flatten = tail ∧
    ∀ m k, ((Session.step limits)^[m] (.start chunks)).framer.octetDecoding =
        some (.discarding k) →
      ∃ dropped left, body = dropped ++ left ∧ left.length = k ∧
        ((Session.step limits)^[m] (.start chunks)).buffer ++
          ((Session.step limits)^[m] (.start chunks)).unread.flatten = left ++ tail := by
  have h : Oversize limits n body := ⟨hbig, hword, hdigits, hbody⟩
  have hstopped := serveStream_stopped limits chunks
  have hcountdown := fun m k => (Session.run_phase h hchunks m).countdown (k := k)
  cases Session.run_phase h hchunks (Session.start chunks).work with
  | header running => exact absurd running hstopped
  | dropping dropped left running => exact absurd running hstopped
  | done closed rejected mode rest => exact ⟨closed, rejected, rest, hcountdown⟩

/-- A body that looks like a header and a line, cut within its own digits. -/
theorem oversize_discarded_digits :
    (serveStream ⟨64, 4, by decide⟩ [[53], [32, 49, 50], [32, 10, 97, 51], [32]]).events =
        [.rejected (fatalError .oversize)] ∧
      (serveStream ⟨64, 4, by decide⟩ [[53], [32, 49, 50], [32, 10, 97, 51], [32]]).buffer ++
        (serveStream ⟨64, 4, by decide⟩
          [[53], [32, 49, 50], [32, 10, 97, 51], [32]]).unread.flatten = [51, 32] :=
  have h := @oversize_discarded ⟨64, 4, by decide⟩ 5 [49, 50, 32, 10, 97] [51, 32]
    [[53], [32, 49, 50], [32, 10, 97, 51], [32]] (by decide) (by decide) (by decide +kernel) rfl
    (by decide +kernel)
  ⟨h.2.1, h.2.2.1⟩

end HyperRuby.Framing
