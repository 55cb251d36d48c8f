import HyperRuby.Framing.Drained

/-! # Independence of the read boundaries

A session that never meets one of the three cut-sensitive calls produces what
the reference says of its whole stream, so two such sessions over the same
stream produce the same results.
-/
namespace HyperRuby.Framing
open Library

namespace Session

/-- The next call does not depend on where the reads were cut: no digit meets a running
discard, neither in front of it nor behind its newline, and no header gets its newline in an
earlier read than its space. -/
structure Uncut (limits : Limits) (s : Session) : Prop where
  discard : s.framer.octetDecoding = none → s.framer.other.isDiscarding = true →
    digitLed s.buffer = false ∧ ∀ rest ∈ afterNewline s.buffer, digitLed rest = false
  header : (s.framer.enter s.buffer).octetDecoding = some .notDiscarding →
    newline ∈ s.buffer → space ∉ s.buffer.take limits.maxLength →
    space ∉ (s.buffer ++ s.unread.flatten).take limits.maxLength

instance (limits : Limits) (s : Session) : Decidable (Uncut limits s) :=
  decidable_of_iff
    ((s.framer.octetDecoding = none → s.framer.other.isDiscarding = true →
        digitLed s.buffer = false ∧ ∀ rest ∈ afterNewline s.buffer, digitLed rest = false) ∧
      ((s.framer.enter s.buffer).octetDecoding = some .notDiscarding →
        newline ∈ s.buffer → space ∉ s.buffer.take limits.maxLength →
        space ∉ (s.buffer ++ s.unread.flatten).take limits.maxLength))
    ⟨fun h => ⟨h.1, h.2⟩, fun h => ⟨h.discard, h.header⟩⟩

/-- The reference state of a session: its mode and all the bytes still to come. -/
def outlook (s : Session) : Mode × Bytes :=
  if s.status = .running then (s.framer.mode, s.buffer ++ s.unread.flatten) else (.closed, [])

/-- A session whose reads have not disturbed the framer. -/
structure Tidy (limits : Limits) (s : Session) : Prop where
  steady : Steady limits s
  octet : s.framer.octetDecoding ≠ none → s.framer.other.isDiscarding = false
  drained : s.status = .running → s.eof = true →
    s.unread = [] ∧ Drained limits s.framer s.buffer

structure Answers (limits : Limits) (s : Session) (reply : Reply) (framer : Framer)
    (left : Bytes) : Prop where
  call : s.call limits = .ok (reply, framer, left)
  agrees : Agrees limits (s.framer.mode, s.buffer ++ s.unread.flatten) reply
    (framer.mode, left ++ s.unread.flatten)
  synced : Synced limits framer left
  octet : framer.octetDecoding ≠ none → framer.other.isDiscarding = false
  drained : reply = .ok none ∨ s.eof = true →
    (∀ error, reply = .error error → error.fatal = false) → Drained limits framer left
  silent : s.eof = true → reply = .ok none →
    next limits (s.framer.mode, s.buffer ++ s.unread.flatten) = none

section Answers
variable {limits : Limits} {s : Session}

/-- Octet counting is entered with no discard running, and from there the outlook is that of
its state. -/
theorem octet_outlook (h : Tidy limits s) (hu : Uncut limits s) {state : State}
    (he : (s.framer.enter s.buffer).octetDecoding = some state) (more : Bytes) :
    s.framer.other.isDiscarding = false ∧
      next limits (state.mode, s.buffer ++ more) =
        next limits (s.framer.mode, s.buffer ++ more) := by
  cases ho : s.framer.octetDecoding with
  | some state' =>
    rw [Framer.enter_of_some ho, ho, Option.some.injEq] at he
    subst he
    exact ⟨h.octet (by simp [ho]), by simp [Framer.mode, ho]⟩
  | none =>
    cases hd : digitLed s.buffer with
    | false =>
      rw [Framer.enter_of_line hd, ho] at he
      cases he
    | true =>
      rw [Framer.enter_of_digit ho hd] at he
      cases he
      have hdis : s.framer.other.isDiscarding = false := by
        by_contra hdis
        have hfalse := (hu.discard ho (by simpa using hdis)).1
        rw [hd] at hfalse
        cases hfalse
      refine ⟨hdis, ?_⟩
      have hlead : digitLed (s.buffer ++ more) = true := by
        rwa [digitLed_append (ne_nil_of_digitLed hd)]
      simp [Framer.mode, ho, LinesCodec.mode, hdis, State.mode, next, freshNext, hlead]

theorem octet_late {state : State} {src left : Bytes} {reply : Reply} {after : Option State}
    (hstep : Framer.OctetStep limits state src reply after left)
    (hq : state = .notDiscarding → next limits (state.mode, src) = none) :
    (reply = .ok none ∧ next limits (state.mode, src) = none) ∨
      ∃ error, reply = .error error ∧ error.fatal = true := by
  match reply, hstep with
  | .error error, hstep => exact .inr ⟨error, rfl, Framer.octetStep_fatal hstep⟩
  | .ok reply, hstep =>
    left
    cases state with
    | notDiscarding =>
      have hag := octetStep_agrees hstep [] (by simp)
      rw [List.append_nil] at hag
      cases reply with
      | none => exact ⟨rfl, hq rfl⟩
      | some message =>
        have hsome : next limits (State.notDiscarding.mode, src) = _ := hag
        rw [hq rfl] at hsome
        cases hsome
    | discarding chars =>
      cases hstep with
      | skipping _ _ short => exact ⟨rfl, if_neg (not_le.mpr short)⟩
    | discardingToEol =>
      cases hstep with
      | unsynced _ line => exact ⟨rfl, if_neg line⟩

theorem octet_answers (h : Tidy limits s) (hu : Uncut limits s) (hr : s.status = .running)
    {state : State} (he : (s.framer.enter s.buffer).octetDecoding = some state) :
    ∃ reply framer left, Answers limits s reply framer left := by
  rcases call_octet limits he with ⟨reply, after, left, hcall, hstep⟩
  rcases octet_outlook h hu he s.unread.flatten with ⟨hdis, hout⟩
  have hlate : s.eof = true → (reply = .ok none ∧
      next limits (s.framer.mode, s.buffer ++ s.unread.flatten) = none) ∨
      ∃ error, reply = .error error ∧ error.fatal = true := by
    intro heof
    rcases h.drained hr heof with ⟨hnil, hdr⟩
    rw [hnil, List.flatten_nil, List.append_nil] at hout ⊢
    rw [← hout]
    apply octet_late hstep
    rintro rfl
    apply hdr.header
    cases ho : s.framer.octetDecoding with
    | some state' => rwa [Framer.enter_of_some ho, ho] at he
    | none =>
      rw [Framer.enter_of_line (hdr.line ho).2.2, ho] at he
      cases he
  have hz : ({ s.framer with octetDecoding := after } : Framer).other.nextIndex = 0 :=
    h.steady.synced.octet_zero he
  refine ⟨reply, _, left, hcall, ?_, Synced.of_zero hz _, fun _ => hdis, ?_, ?_⟩
  · have hag := octetStep_agrees hstep s.unread.flatten
      (fun hs => hu.header (by rw [he, hs]))
    have hmode : ({ s.framer with octetDecoding := after } : Framer).mode =
        (after.map State.mode).getD .fresh := by
      simp [Framer.mode, LinesCodec.mode, hdis]
    rw [hmode]
    exact hag.congr hout
  · intro hq hfatal
    have hnone : reply = .ok none := by
      rcases hq with hq | heof
      · exact hq
      · rcases hlate heof with ⟨hq, -⟩ | ⟨error, herr, hf⟩
        · exact hq
        · rw [hfatal error herr] at hf
          cases hf
    subst hnone
    exact octetStep_drained hstep
  · intro heof hnone
    rcases hlate heof with ⟨-, hq⟩ | ⟨error, herr, -⟩
    · exact hq
    · rw [hnone] at herr
      cases herr

theorem mapError_eq_none {reply : LinesReply} (h : reply.mapError lineError = .ok none) :
    reply = .ok none := by
  match reply, h with
  | .ok none, _ => rfl

theorem not_strandsCursor (hu : Uncut limits s) : ¬ StrandsCursor limits s.framer s.buffer := by
  rintro ⟨ho, -, hdis, rest, hrest, -, -, hlead⟩
  rw [(hu.discard ho hdis).2 rest hrest] at hlead
  cases hlead

theorem line_answers (h : Tidy limits s) (hu : Uncut limits s) (hr : s.status = .running)
    (he : (s.framer.enter s.buffer).octetDecoding = none) :
    ∃ reply framer left, Answers limits s reply framer left := by
  rcases line_of_enter he with ⟨ho, hd⟩
  have hcut := fun hdis => (hu.discard ho hdis).2
  have hcall := call_line he h.steady.synced.inRange
  have hmode : ∀ codec : LinesCodec, ({ s.framer with other := codec } : Framer).mode =
      codec.mode := fun codec => by simp [Framer.mode, ho]
  have hsynced : Synced limits { s.framer with other := (s.lineOutcome limits).2.1 }
      (s.lineOutcome limits).2.2 := by
    rcases call_synced h.steady.synced (fun _ => not_strandsCursor hu) with ⟨_, _, _, hc, hs⟩
    rw [hcall] at hc
    cases hc
    exact hs
  have hfrom : s.framer.mode = s.framer.other.mode := by simp [Framer.mode, ho]
  refine ⟨_, _, _, hcall, ?_, hsynced, fun hne => absurd ho hne, ?_, ?_⟩
  · rw [hfrom, hmode (s.lineOutcome limits).2.1, lineOutcome]
    cases heof : s.eof with
    | false => exact readLine_agrees hd hcut s.unread.flatten
    | true =>
      rcases h.drained hr heof with ⟨hnil, hdr⟩
      rcases hdr.line ho with ⟨hclear, hlen, -⟩
      rw [hnil, List.flatten_nil, List.append_nil, List.append_nil]
      exact (release_agrees s.framer.other hclear hlen hd).1
  · intro hq _
    rw [lineOutcome] at hq ⊢
    cases heof : s.eof with
    | false =>
      rw [heof] at hq
      simp only [Bool.false_eq_true, or_false, if_false] at hq
      exact readLine_drained ho hd hcut (mapError_eq_none hq)
    | true =>
      rcases (h.drained hr heof).2.line ho with ⟨hclear, hlen, -⟩
      exact release_rest s.framer.other hclear hlen ho hd
  · intro heof hnone
    rcases h.drained hr heof with ⟨hnil, hdr⟩
    rcases hdr.line ho with ⟨hclear, hlen, -⟩
    rw [hfrom, hnil, List.flatten_nil, List.append_nil]
    rw [lineOutcome, heof] at hnone
    exact (release_agrees s.framer.other hclear hlen hd).2 (mapError_eq_none hnone)

theorem tidy_answers (h : Tidy limits s) (hu : Uncut limits s) (hr : s.status = .running) :
    ∃ reply framer left, Answers limits s reply framer left := by
  cases he : (s.framer.enter s.buffer).octetDecoding with
  | some state => exact octet_answers h hu hr he
  | none => exact line_answers h hu hr he

end Answers

section Steps
variable {limits : Limits} {s : Session}

theorem outlook_running (h : s.status = .running) :
    s.outlook = (s.framer.mode, s.buffer ++ s.unread.flatten) := if_pos h

theorem outlook_stopped (h : s.status ≠ .running) : s.outlook = (.closed, []) := if_neg h

/-- Leaving the inner loop changes nothing the reference sees, and closes only a session
whose outlook is empty. -/
theorem read_follows (h : Tidy limits s) (hr : s.status = .running)
    (hd : Drained limits s.framer s.buffer) (hq : s.eof = true → next limits s.outlook = none) :
    next limits s.read.outlook = next limits s.outlook ∧ s.read.events = s.events ∧
      Tidy limits s.read := by
  have hs := read_steady h.steady
  cases heof : s.eof with
  | true =>
    rw [read_eof heof] at hs ⊢
    refine ⟨?_, rfl, hs, h.octet, fun hrun => by cases hrun⟩
    rw [hq heof, outlook_stopped (by simp)]
    rfl
  | false =>
    cases hu : s.unread with
    | nil =>
      rw [read_last heof hu] at hs ⊢
      exact ⟨rfl, rfl, hs, h.octet, fun _ _ => ⟨hu, hd⟩⟩
    | cons chunk unread =>
      rw [read_chunk heof hu] at hs ⊢
      refine ⟨?_, rfl, hs, h.octet, fun _ he => ?_⟩
      · simp only [outlook, hr, hu, if_true, List.flatten_cons, List.append_assoc]
      · rw [heof] at he
        cases he

theorem step_follows (hu : s.status = .running → Uncut limits s) (h : Tidy limits s) :
    Follows (next limits) outlook events s (s.step limits) ∧ Tidy limits (s.step limits) := by
  by_cases hr : s.status = .running
  · rcases tidy_answers h (hu hr) hr with ⟨reply, framer, left, ha⟩
    have hag := ha.agrees
    rw [← outlook_running hr] at hag
    rw [step_running hr, ha.call]
    match reply, ha, hag with
    | .ok none, ha, hag =>
      have hd := ha.drained (.inl rfl) (by simp)
      have ht : Tidy limits { s with framer := framer, buffer := left } :=
        ⟨⟨ha.synced, h.steady.returned⟩, ha.octet, fun _ he => ⟨(h.drained hr he).1, hd⟩⟩
      have hback : next limits ({ s with framer := framer, buffer := left } : Session).outlook =
          next limits s.outlook := by
        rw [outlook_running (show ({ s with framer := framer, buffer := left } : Session).status =
          .running from hr)]
        exact hag
      have hq : s.eof = true →
          next limits ({ s with framer := framer, buffer := left } : Session).outlook = none := by
        intro heof
        rw [hback, outlook_running hr]
        exact ha.silent heof rfl
      rcases read_follows ht hr hd hq with ⟨hn, hev, htidy⟩
      exact ⟨.inl ⟨hev, hn.trans hback⟩, htidy⟩
    | .ok (some message), ha, hag =>
      refine ⟨.inr ⟨.message message, rfl, ?_⟩, ⟨ha.synced, h.steady.returned⟩, ha.octet, ?_⟩
      · rw [outlook_running (s := s.handle (.ok (.ok (some message), framer, left))) hr]
        exact hag
      · exact fun _ he => ⟨(h.drained hr he).1, ha.drained (.inr he) (by simp)⟩
    | .error error, ha, hag =>
      have hret : ∀ trap, (if error.fatal then Status.closed else .running) ≠ .panicked trap := by
        intro trap
        split_ifs <;> simp
      refine ⟨.inr ⟨.rejected error, rfl, ?_⟩, ⟨ha.synced, hret⟩, ha.octet, ?_⟩
      · refine hag.trans ?_
        cases hf : error.fatal with
        | true => simp [handle, outlook, hf]
        | false => simp [handle, outlook, hf]
      · intro hrun he
        have hf : error.fatal = false := by
          by_contra hf
          simp [handle, hf] at hrun
        exact ⟨(h.drained hr he).1, ha.drained (.inr he) (by rintro _ ⟨⟩; exact hf)⟩
  · rw [step_stopped hr]
    exact ⟨.inl ⟨rfl, rfl⟩, h⟩

theorem start_tidy (limits : Limits) (chunks : List Bytes) : Tidy limits (start chunks) := by
  refine ⟨start_steady limits chunks, fun h => absurd rfl h, fun _ he => ?_⟩
  cases he

end Steps
end Session

section Streams
variable {limits : Limits} {chunks chunks' : List Bytes}

theorem serveStream_emits
    (h : ∀ n, ((Session.step limits)^[n] (Session.start chunks)).status = .running →
      ((Session.step limits)^[n] (Session.start chunks)).Uncut limits) :
    Emits (next limits) (.fresh, chunks.flatten) (serveStream limits chunks).events := by
  have htidy := iterate_invariant (Session.Tidy limits)
    (fun _ hu ht => (Session.step_follows hu ht).2) h (Session.start_tidy limits chunks)
  have hdone : next limits (serveStream limits chunks).outlook = none := by
    rw [Session.outlook_stopped (serveStream_stopped limits chunks)]
    rfl
  have hfollows : ∀ m < (Session.start chunks).work,
      Follows (next limits) Session.outlook Session.events
        ((Session.step limits)^[m] (Session.start chunks))
        ((Session.step limits)^[m + 1] (Session.start chunks)) := by
    intro m _
    rw [Function.iterate_succ_apply']
    exact (Session.step_follows (h m) (htidy m)).1
  rcases emits_of_follows Session.events hfollows hdone with ⟨l, hl, he⟩
  rw [serveStream, he]
  exact hl

/-- Two undisturbed sessions over the same bytes deliver the same messages and the same
rejections in the same order, wherever their reads were cut. -/
theorem serveStream_chunking (hs : chunks.flatten = chunks'.flatten)
    (h : ∀ n, ((Session.step limits)^[n] (Session.start chunks)).status = .running →
      ((Session.step limits)^[n] (Session.start chunks)).Uncut limits)
    (h' : ∀ n, ((Session.step limits)^[n] (Session.start chunks')).status = .running →
      ((Session.step limits)^[n] (Session.start chunks')).Uncut limits) :
    (serveStream limits chunks).events = (serveStream limits chunks').events := by
  have he := serveStream_emits h
  rw [hs] at he
  exact he.unique (serveStream_emits h')

end Streams

/-- With a limit of 4, "aaaaaa\n3 abc" read in two ways that both cut behind the newline. -/
theorem serveStream_chunking_split :
    (serveStream ⟨64, 4, by decide⟩ [[97, 97, 97, 97, 97, 97, 10], [51, 32, 97, 98, 99]]).events =
      (serveStream ⟨64, 4, by decide⟩
        [[97, 97, 97], [97, 97, 97, 10], [51, 32], [97, 98, 99]]).events :=
  serveStream_chunking (by decide)
    (forall_iterate_of_rest (fun t : Session => t.status ≠ .running) (n := 12)
      (P := fun t => t.status = .running → t.Uncut ⟨64, 4, by decide⟩)
      (fun _ => Session.step_stopped) (by decide) (by decide))
    (forall_iterate_of_rest (fun t : Session => t.status ≠ .running) (n := 16)
      (P := fun t => t.status = .running → t.Uncut ⟨64, 4, by decide⟩)
      (fun _ => Session.step_stopped) (by decide) (by decide))

/-- With a limit of 8, "1\n2 " is an invalid length in one read and an oversize frame when
the newline arrives first. -/
theorem split_header_differs :
    [[49, 10, 50, 32]].flatten = [[49, 10], [50, 32]].flatten ∧
    (serveStream ⟨64, 8, by decide⟩ [[49, 10, 50, 32]]).events =
      [.rejected (fatalError .invalidLength)] ∧
    (serveStream ⟨64, 8, by decide⟩ [[49, 10], [50, 32]]).events =
      [.rejected (fatalError .oversize)] := by
  decide

end HyperRuby.Framing
