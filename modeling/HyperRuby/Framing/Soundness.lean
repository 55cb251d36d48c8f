import HyperRuby.Library.Cuts
import HyperRuby.Framing.Cursor
import HyperRuby.Framing.Trace

/-! # Every message was framed

Whatever a peer sends and however it is cut into reads, a message that leaves the read loop
stood in the stream as a frame: behind its own length in decimal, or as a line up to its
newline. The frames follow each other without a gap. Only the rest of a line that was rejected
for its size is dropped, up to its newline, and counted frames may stand in it where a read
starts with a digit. If a digit follows that newline, the codec may take what it starts for a
line, or end the next line at a later newline than its first; behind that line it is back in
step. A fatal rejection ends the messages, and so does a counted frame beyond the limit. At the
end of the stream an unterminated line is released.
-/
namespace HyperRuby.Framing
open Library

/-- Where the scan of a stream stands: whether the rest of a rejected line is being dropped, and
whether the search for newlines is sure to start where it should. -/
structure ScanMode where
  dropping : Bool
  sure : Bool
  deriving DecidableEq, Repr

/-- A line that no one could take for a counted frame, and that ends at its first newline. -/
def PlainLine (body : Bytes) : Prop := newline ∉ body ∧ digitLed body = false

/-- A frame as it stands in the stream, and what the loop makes of it. A rejected line is dropped
behind its rejection. -/
inductive FrameOf : ScanMode → Bytes → Event → ScanMode → Prop where
  | counted (mode : ScanMode) (message : Bytes) (something : message ≠ []) :
      FrameOf mode (decimal message.length ++ space :: message) (.message message) mode
  | line (sure : Bool) (body : Bytes) (plain : sure = true → PlainLine body) :
      FrameOf ⟨false, sure⟩ (body ++ [newline]) (.message (withoutCarriageReturn body))
        ⟨false, true⟩
  | oversize (sure : Bool) :
      FrameOf ⟨false, sure⟩ [] (.rejected (recoverableError .oversize)) ⟨true, sure⟩

/-- A byte of a rejected line that is dropped, with the bytes behind it. The drop ends at a
newline, the first one where the search is sure, and the search is sure again unless a digit
follows. -/
inductive Drops : ScanMode → UInt8 → Bytes → ScanMode → Prop where
  | inside (sure : Bool) (b : UInt8) (rest : Bytes) (seen : sure = true → b ≠ newline) :
      Drops ⟨true, sure⟩ b rest ⟨true, sure⟩
  | ended (before sure : Bool) (rest : Bytes) (resumed : sure = false → digitLed rest = true) :
      Drops ⟨true, before⟩ newline rest ⟨false, sure⟩

/-- The events are what the frames of the stream give, from one mode to another. -/
abbrev Scan : ScanMode → Bytes → List Event → ScanMode → Bytes → Prop := Cuts FrameOf Drops

theorem Drops.append (mode : ScanMode) (b : UInt8) (rest : Bytes) (next : ScanMode) (more : Bytes)
    (h : Drops mode b rest next) : Drops mode b (rest ++ more) next := by
  cases h with
  | inside sure _ _ seen => exact .inside sure b _ seen
  | ended before sure _ resumed =>
    refine .ended before sure _ (fun hsure => ?_)
    rw [digitLed_append (ne_nil_of_digitLed (resumed hsure))]
    exact resumed hsure

theorem scan_inside {sure : Bool} {bytes : Bytes} (h : sure = true → newline ∉ bytes)
    (rest : Bytes) : Scan ⟨true, sure⟩ (bytes ++ rest) [] ⟨true, sure⟩ rest := by
  refine Cuts.passed (fun b hb rest => .inside sure b rest ?_) rest
  rintro hsure rfl
  exact h hsure hb

section Header

theorem digitByte_of_digitValue {b : UInt8} {d : ℕ} (h : digitValue b = some d) :
    d < 10 ∧ b = UInt8.ofNat (0x30 + d) := by
  rw [digitValue] at h
  split_ifs at h with hrange
  cases h
  simp only [UInt8.le_iff_toNat_le, UInt8.reduceToNat] at hrange
  refine ⟨by omega, ?_⟩
  rw [Nat.add_sub_cancel' hrange.1, UInt8.ofNat_toNat]

theorem decimal_shift {value d : ℕ} (hd : d < 10) (h : value * 10 + d ≠ 0) :
    decimal (value * 10 + d) = decimal value ++ [UInt8.ofNat (0x30 + d)] := by
  have hdiv : (value * 10 + d) / 10 = value := by omega
  have hmod : (value * 10 + d) % 10 = d := by omega
  rw [decimal_succ_step h, hdiv, hmod]

theorem decimal_of_parseDigits {w value n : ℕ} {s : Bytes} (hvalue : value ≠ 0)
    (h : parseDigits w value s = some n) : decimal value ++ s = decimal n := by
  induction s generalizing value with
  | nil =>
    obtain rfl : value = n := by simpa [parseDigits] using h
    exact List.append_nil _
  | cons b s ih =>
    rw [parseDigits] at h
    split at h
    · cases h
    · rename_i d hb
      obtain ⟨hd, rfl⟩ := digitByte_of_digitValue hb
      split_ifs at h
      have hne : value * 10 + d ≠ 0 := by omega
      rw [← ih hne h, decimal_shift hd hne, List.append_assoc]
      rfl

theorem decimal_of_headerLength {w len : ℕ} {digits : Bytes} (hlead : digitLed digits = true)
    (h : headerLength w digits = some len) : digits = decimal len := by
  rw [headerLength] at h
  split_ifs at h
  cases digits with
  | nil => cases hlead
  | cons b s =>
    obtain ⟨hlow, hhigh⟩ : 0x31 ≤ b ∧ b ≤ 0x39 := by
      simpa only [digitLed_cons, leadDigit, Bool.and_eq_true, decide_eq_true_eq] using hlead
    rw [UInt8.le_iff_toNat_le] at hlow
    simp only [UInt8.reduceToNat] at hlow
    have hsign : b ≠ 0x2B := by
      rintro rfl
      simp at hlow
    rw [parseUsize, if_neg hsign, parseDigits] at h
    split at h
    · cases h
    · rename_i d hb
      obtain ⟨hd, rfl⟩ := digitByte_of_digitValue hb
      rw [digitByte_toNat hd] at hlow
      split_ifs at h
      have hne : 0 * 10 + d ≠ 0 := by omega
      rw [← decimal_of_parseDigits hne h, decimal_shift hd hne]
      rfl

end Header

/-- What the loop records of a reply. -/
def answered : Reply → List Event
  | .ok (some message) => [.message message]
  | .ok none => []
  | .error error => [.rejected error]

/-- The framer is where the scan stands: it drops a line when the scan does, and its cursor is
in order where the scan is sure. -/
structure Tracks (limits : Limits) (mode : ScanMode) (framer : Framer) (buffer : Bytes) : Prop where
  dropping : framer.other.isDiscarding = mode.dropping
  synced : mode.sure = true → Synced limits framer buffer

theorem Tracks.extend {limits : Limits} {mode : ScanMode} {framer : Framer} {left buffer : Bytes}
    (h : Tracks limits mode framer left) (hkept : left <+: buffer) :
    Tracks limits mode framer buffer := by
  obtain ⟨more, rfl⟩ := hkept
  exact ⟨h.dropping, fun hsure => (h.synced hsure).append more⟩

/-- What a call comes to for the scan of the buffer, before the end of the stream or behind it. -/
inductive Scans (limits : Limits) (eof : Bool) (mode : ScanMode) (buffer : Bytes) (framer : Framer)
    (left : Bytes) : Reply → Prop where
  | goes (next : ScanMode) {reply : Reply} (scan : Scan mode buffer (answered reply) next left)
      (tracks : Tracks limits next framer left)
      (octet : ∀ state ∈ framer.octetDecoding, state = .notDiscarding) :
      Scans limits eof mode buffer framer left reply
  | floods (long : ∀ more, LongFrame limits (buffer ++ more)) (behind : left <:+ buffer)
      (octet : ∃ state, framer.octetDecoding = some state ∧ state ≠ .notDiscarding) :
      Scans limits eof mode buffer framer left (.ok none)
  | ends {error : FrameError} (fatal : error.fatal = true) (behind : left <:+ buffer) :
      Scans limits eof mode buffer framer left (.error error)
  | releases (sure : Bool) (body : Bytes) (scan : Scan mode buffer [] ⟨false, sure⟩ body)
      (plain : sure = true → PlainLine body) (something : body ≠ []) (ended : eof = true)
      (emptied : left = []) (octet : framer.octetDecoding = none) :
      Scans limits eof mode buffer framer left (.ok (some (withoutCarriageReturn body)))

theorem LinesCodec.decode_nil {maxLength : ℕ} {codec codec' : LinesCodec} {reply : LinesReply}
    {rest : Bytes} (h : decode maxLength codec [] = .ok (reply, codec', rest)) :
    reply = .ok none ∧ rest = [] := by
  cases hd : codec.isDiscarding with
  | false =>
    generalize hbuf : ([] : Bytes) = buf at h
    cases decode_scanned hd h with
    | line body rest found => simp [found] at hbuf
    | exceeded long => simp [← hbuf] at long
    | waiting => exact ⟨rfl, rfl⟩
  | true =>
    rcases decode_dropping hd h with ⟨-, rfl, -, rfl⟩ | ⟨line, hafter, -⟩
    · exact ⟨rfl, rfl⟩
    · rw [List.drop_nil] at hafter
      cases hafter

section Lines
variable {limits : Limits} {mode : ScanMode} {framer : Framer} {buffer left : Bytes}
  {reply : LinesReply} {codec : LinesCodec}

/-- What a turn of the line codec comes to: a line that is no text, or the scan goes on. An
answer that has to wait leaves all of an unterminated line. -/
def TurnScans (limits : Limits) (mode : ScanMode) (buffer : Bytes) (framer : Framer) (left : Bytes)
    (reply : LinesReply) : Prop :=
  (reply = .error .io ∧ left <:+ buffer) ∨
    ∃ next, Scan mode buffer (answered (reply.mapError lineError)) next left ∧
      Tracks limits next framer left ∧
      (reply = .ok none → left ≠ [] →
        next.dropping = false ∧ (next.sure = true → PlainLine left))

theorem plainLine_of_append {body rest : Bytes} (hline : newline ∉ body)
    (hlead : digitLed (body ++ newline :: rest) = false) : PlainLine body := by
  refine ⟨hline, ?_⟩
  cases body with
  | nil => rfl
  | cons b body => exact hlead

theorem scan_line {sure : Bool} {body : Bytes} (plain : sure = true → PlainLine body)
    (rest : Bytes) :
    Scan ⟨false, sure⟩ (body ++ newline :: rest) [.message (withoutCarriageReturn body)]
      ⟨false, true⟩ rest := by
  have hpart : body ++ newline :: rest = body ++ [newline] ++ rest := by simp
  rw [hpart]
  exact Cuts.found (.line sure body plain) rest

theorem turn_scans {sure : Bool} (ht : Tracks limits ⟨false, sure⟩ framer buffer)
    (ho : framer.octetDecoding = none) (hlead : sure = true → digitLed buffer = false)
    (h : LinesCodec.Scanned limits.maxLength framer.other buffer reply codec left) :
    TurnScans limits ⟨false, sure⟩ buffer { framer with other := codec } left reply := by
  have hclear : sure = true → newline ∉ buffer.take framer.other.nextIndex :=
    fun hsure => (ht.synced hsure).inRange.clear
  cases h with
  | line body rest found past ahead =>
    subst found
    rw [TurnScans, utf8]
    split_ifs
    · refine .inr ⟨⟨false, true⟩, scan_line (fun hsure => ?_) left,
        ⟨rfl, fun _ => Synced.of_zero rfl _⟩, by simp⟩
      have hbefore := hclear hsure
      rw [List.take_append_of_le_length past] at hbefore
      exact plainLine_of_append (not_mem_of_take_drop hbefore ahead) (hlead hsure)
    · exact .inl ⟨rfl, body ++ [newline], by simp⟩
  | exceeded long ahead =>
    refine .inr ⟨⟨true, sure⟩, Cuts.found (FrameOf.oversize sure) _, ⟨rfl, fun hsure => ?_⟩,
      by simp⟩
    have hsynced := ht.synced hsure
    exact ⟨⟨hsynced.inRange.bound, hsynced.inRange.clear⟩, hsynced.octet, hsynced.line⟩
  | waiting short ahead =>
    have hline : sure = true → newline ∉ buffer :=
      fun hsure => not_mem_of_take_drop (hclear hsure) ahead
    refine .inr ⟨⟨false, sure⟩, .done _ _, ⟨rfl, fun hsure => ?_⟩, fun _ _ => ⟨rfl, ?_⟩⟩
    · refine ⟨⟨?_, ?_⟩, fun _ => ho, fun _ => hlead hsure⟩
      · show buffer.length ≤ min (limits.maxLength + 1) buffer.length
        omega
      · simpa using hline hsure
    · exact fun hsure => ⟨hline hsure, hlead hsure⟩

theorem dropping_scans {sure : Bool} (ht : Tracks limits ⟨true, sure⟩ framer buffer)
    (ho : framer.octetDecoding = none)
    (h : LinesCodec.decode limits.maxLength framer.other buffer = .ok (reply, codec, left)) :
    TurnScans limits ⟨true, sure⟩ buffer { framer with other := codec } left reply := by
  have hclear : sure = true → newline ∉ buffer.take framer.other.nextIndex :=
    fun hsure => (ht.synced hsure).inRange.clear
  rcases LinesCodec.decode_dropping ht.dropping h with
    ⟨hnone, rfl, rfl, rfl⟩ | ⟨line, hafter, hscan⟩
  · refine .inr ⟨⟨true, sure⟩, ?_, ⟨rfl, fun _ => Synced.of_zero rfl _⟩, fun _ h => absurd rfl h⟩
    have hall := scan_inside (fun hsure => not_mem_of_take_drop (hclear hsure) hnone) []
    rwa [List.append_nil] at hall
  · obtain ⟨p, hsplit, hp⟩ := afterNewline_eq_some.mp hafter
    have hbuffer : buffer =
        (buffer.take framer.other.nextIndex ++ p) ++ newline :: line := by
      rw [List.append_assoc, ← hsplit, List.take_append_drop]
    have hdropped : ∀ sure', (sure' = false → digitLed line = true) →
        Scan ⟨true, sure⟩ buffer [] ⟨false, sure'⟩ line := by
      intro sure' hresumed
      rw [hbuffer]
      refine (scan_inside (fun hsure hmem => ?_) _).trans
        (.skip (.ended sure sure' line hresumed) (.done _ _))
      exact (List.mem_append.mp hmem).elim (hclear hsure) hp
    have hbehind : line <:+ buffer := by
      refine ⟨buffer.take framer.other.nextIndex ++ p ++ [newline], ?_⟩
      rw [List.append_assoc _ [newline], List.singleton_append]
      exact hbuffer.symm
    -- the search starts behind the newline, so it is sure but for a digit there
    have hturn := @turn_scans limits { framer with other := ⟨0, false⟩ } line left reply codec
      (!digitLed line) ⟨rfl, fun _ => Synced.of_zero rfl _⟩ ho (by simp) hscan
    rcases hturn with ⟨rfl, hleft⟩ | ⟨next, hnext, htracks, hwaits⟩
    · exact .inl ⟨rfl, hleft.trans hbehind⟩
    · exact .inr ⟨next, (hdropped _ (by simp)).trans hnext, htracks, hwaits⟩

theorem decode_scans (ht : Tracks limits mode framer buffer)
    (he : (framer.enter buffer).octetDecoding = none)
    (h : LinesCodec.decode limits.maxLength framer.other buffer = .ok (reply, codec, left)) :
    TurnScans limits mode buffer { framer with other := codec } left reply := by
  obtain ⟨ho, hlead⟩ := line_of_enter he
  obtain ⟨_ | _, sure⟩ := mode
  · exact turn_scans ht ho (fun _ => hlead) (LinesCodec.decode_scanned ht.dropping h)
  · exact dropping_scans ht ho h

theorem TurnScans.scans (h : TurnScans limits mode buffer framer left reply)
    (ho : framer.octetDecoding = none) (eof : Bool) :
    Scans limits eof mode buffer framer left (reply.mapError lineError) := by
  rcases h with ⟨rfl, hleft⟩ | ⟨next, hscan, htracks, -⟩
  · exact .ends rfl hleft
  · exact .goes next hscan htracks (by simp [ho])

theorem TurnScans.release
    (h : TurnScans limits mode buffer { framer with other := codec } left reply)
    (ho : framer.octetDecoding = none) :
    Scans limits true mode buffer
      { framer with other := (LinesCodec.release (reply, codec, left)).2.1 }
      (LinesCodec.release (reply, codec, left)).2.2
      ((LinesCodec.release (reply, codec, left)).1.mapError lineError) := by
  rcases reply with error | _ | message
  · exact h.scans ho true
  · rcases h with ⟨hreply, -⟩ | ⟨next, hscan, htracks, hwaits⟩
    · cases hreply
    rw [LinesCodec.release]
    split_ifs with hlast
    · exact .goes next hscan ⟨htracks.dropping, fun _ => Synced.of_zero rfl _⟩ (by simp [ho])
    · rw [not_or] at hlast
      obtain ⟨hdropping, hplain⟩ := hwaits rfl hlast.1
      obtain ⟨dropping, sure⟩ := next
      obtain rfl : dropping = false := hdropping
      rw [utf8]
      split_ifs
      · exact .releases sure left hscan hplain hlast.1 rfl rfl ho
      · exact .ends rfl List.nil_suffix
  · exact h.scans ho true

end Lines

/-- A counted message stands behind its length; every other answer in front of one waits, ends
the connection or begins to drop a frame beyond the limit. -/
theorem header_scans {limits : Limits} {eof : Bool} {mode : ScanMode} {framer : Framer}
    {src left : Bytes} {reply : Reply} {next : Option State} (ht : Tracks limits mode framer src)
    (he : (framer.enter src).octetDecoding = some .notDiscarding) (hlead : digitLed src = true)
    (h : Framer.OctetStep limits .notDiscarding src reply next left) :
    Scans limits eof mode src { framer with octetDecoding := next } left reply := by
  have htracks : ∀ rest, Tracks limits mode { framer with octetDecoding := next } rest :=
    fun rest => ⟨ht.dropping, fun hsure =>
      @Synced.of_zero limits { framer with octetDecoding := next }
        ((ht.synced hsure).octet_zero he) rest⟩
  cases h with
  | complete digits msg rest token near value fits =>
    have hne : digits ≠ [] := by
      rintro rfl
      exact absurd hlead (by rw [List.nil_append, digitLed_cons]; decide)
    have hdigits : digits = decimal msg.length := by
      refine decimal_of_headerLength ?_ value
      rw [← digitLed_append hne]
      exact hlead
    have hpart : digits ++ space :: (msg ++ left) =
        decimal msg.length ++ space :: msg ++ left := by simp [hdigits]
    have hmsg : msg ≠ [] := by
      rintro rfl
      exact hne hdigits
    split_ifs
    · refine .goes mode ?_ (htracks left) (by simp)
      rw [hpart]
      exact Cuts.found (.counted mode msg hmsg) left
    · exact .ends rfl ⟨decimal msg.length ++ space :: msg, hpart.symm⟩
  | badLength digits => exact .ends rfl ⟨digits ++ [space], by simp⟩
  | overrun p => exact .ends rfl ⟨p ++ [newline], by simp⟩
  | tooLong digits rest len token near value big =>
    refine .floods (fun more => ?_) ⟨digits ++ [space], by simp⟩ ⟨_, rfl, by simp⟩
    rw [← digitLed_append (ne_nil_of_digitLed hlead) more] at hlead
    rw [List.append_assoc, List.cons_append] at hlead ⊢
    exact .declared digits _ len hlead token value big
  | flooded _ line far full =>
    refine .floods (fun more => ?_) List.nil_suffix ⟨_, rfl, by simp⟩
    exact longFrame_of_far hlead far (fun hmem => line (List.mem_of_mem_take hmem)) full more
  | incomplete | waiting => exact .goes mode (.done _ _) (htracks _) (by simp)

/-- A frame beyond the limit is dropped until it ends the connection. -/
theorem octetStep_drops {limits : Limits} {state : State} {src left : Bytes} {reply : Reply}
    {next : Option State} (hstate : state ≠ .notDiscarding)
    (h : Framer.OctetStep limits state src reply next left) :
    left <:+ src ∧ ((reply = .ok none ∧ ∃ state', next = some state' ∧ state' ≠ .notDiscarding) ∨
      ∃ error, reply = .error error ∧ error.fatal = true) := by
  cases h with
  | skipped body => exact ⟨List.suffix_append _ _, .inr ⟨_, rfl, rfl⟩⟩
  | resynced p => exact ⟨⟨p ++ [newline], by simp⟩, .inr ⟨_, rfl, rfl⟩⟩
  | skipping | unsynced => exact ⟨List.nil_suffix, .inl ⟨rfl, _, rfl, by simp⟩⟩
  | _ => exact absurd rfl hstate

namespace Session
variable {limits : Limits} {s : Session} {stream : Bytes} {mode : ScanMode}

theorem call_scans {reply : Reply} {framer : Framer} {left : Bytes}
    (ht : Tracks limits mode s.framer s.buffer)
    (hoctet : ∀ state ∈ s.framer.octetDecoding, state = .notDiscarding)
    (hlead : (s.framer.enter s.buffer).octetDecoding = some .notDiscarding →
      digitLed s.buffer = true)
    (h : s.call limits = .ok (reply, framer, left)) :
    Scans limits s.eof mode s.buffer framer left reply := by
  cases he : (s.framer.enter s.buffer).octetDecoding with
  | some state =>
    obtain rfl : state = .notDiscarding := by
      rcases Framer.enter_some he with hheld | ⟨rfl, -⟩
      · exact hoctet state hheld
      · rfl
    obtain ⟨reply', next, left', hcall, hstep⟩ := call_octet limits he
    rw [hcall] at h
    cases h
    exact header_scans ht he (hlead he) hstep
  | none =>
    have ho := (line_of_enter he).1
    rw [call] at h
    split_ifs at h with heof
    · rw [Framer.decodeEof, Framer.decodeVia_line limits _ he, LinesCodec.decodeEof] at h
      cases hline : LinesCodec.decode limits.maxLength s.framer.other s.buffer with
      | error trap =>
        rw [hline] at h
        cases h
      | ok out =>
        rw [hline] at h
        cases h
        rw [heof]
        exact (decode_scans ht he hline).release ho
    · rw [Framer.decode, Framer.decodeVia_line limits _ he] at h
      cases hline : LinesCodec.decode limits.maxLength s.framer.other s.buffer with
      | error trap =>
        rw [hline] at h
        cases h
      | ok out =>
        rw [hline] at h
        cases h
        exact (decode_scans ht he hline).scans ho _

theorem call_nil {reply : Reply} {framer : Framer} {left : Bytes} (hbuffer : s.buffer = [])
    (ho : s.framer.octetDecoding = none) (h : s.call limits = .ok (reply, framer, left)) :
    reply = .ok none ∧ left = [] := by
  have he : (s.framer.enter s.buffer).octetDecoding = none := by
    rw [hbuffer, Framer.enter_of_line rfl]
    exact ho
  rw [call] at h
  cases hline : LinesCodec.decode limits.maxLength s.framer.other s.buffer with
  | error trap =>
    simp only [Framer.decodeEof, Framer.decode, Framer.decodeVia_line limits _ he,
      LinesCodec.decodeEof, hline] at h
    split_ifs at h <;> cases h
  | ok out =>
    obtain ⟨reply', codec, left'⟩ := out
    obtain ⟨rfl, rfl⟩ := LinesCodec.decode_nil (hbuffer ▸ hline)
    simp only [Framer.decodeEof, Framer.decode, Framer.decodeVia_line limits _ he,
      LinesCodec.decodeEof, hline] at h
    split_ifs at h
    · cases h
      exact ⟨rfl, rfl⟩
    · cases h
      exact ⟨rfl, rfl⟩

/-- Where a session stands with respect to the frames of its stream. -/
inductive Place where
  | scanning (mode : ScanMode)
  | flooded
  | rejected
  | released
  deriving DecidableEq, Repr

/-- The events so far are those of the frames of the stream, and the bytes that remain are behind
them. A frame beyond the limit that is being dropped, and one that was rejected with the
connection, is the last that was scanned; past the end of the stream an unterminated line may
be. -/
inductive Framed (limits : Limits) (stream : Bytes) (s : Session) : Place → Prop where
  | scanning (mode : ScanMode) (scan : Scan ⟨false, true⟩ stream s.events mode s.remaining) :
      Framed limits stream s (.scanning mode)
  | flooded (mode : ScanMode) (frame : Bytes) (scan : Scan ⟨false, true⟩ stream s.events mode frame)
      (long : LongFrame limits frame) (behind : s.remaining <:+ frame) :
      Framed limits stream s .flooded
  | rejected (mode : ScanMode) (frame : Bytes) (earlier : List Event) (error : FrameError)
      (scan : Scan ⟨false, true⟩ stream earlier mode frame)
      (last : s.events = earlier ++ [.rejected error]) (fatal : error.fatal = true)
      (closed : s.status = .closed) (behind : s.remaining <:+ frame) :
      Framed limits stream s .rejected
  | released (sure : Bool) (body : Bytes) (earlier : List Event)
      (scan : Scan ⟨false, true⟩ stream earlier ⟨false, sure⟩ body)
      (plain : sure = true → PlainLine body) (something : body ≠ [])
      (last : s.events = earlier ++ [.message (withoutCarriageReturn body)])
      (ended : s.eof = true) (emptied : s.remaining = []) :
      Framed limits stream s .released

/-- The framer of a running session stands where the scan does. -/
def Follows (limits : Limits) (s : Session) : Place → Prop
  | .scanning mode => Tracks limits mode s.framer s.buffer ∧
    ∀ state ∈ s.framer.octetDecoding, state = .notDiscarding
  | .flooded => ∃ state, s.framer.octetDecoding = some state ∧ state ≠ .notDiscarding
  | .rejected => True
  | .released => s.framer.octetDecoding = none

theorem step_answered {reply : Reply} {framer : Framer} {left : Bytes}
    (hrun : s.status = .running) (h : s.call limits = .ok (reply, framer, left)) :
    (s.step limits).events = s.events ++ answered reply ∧ (s.step limits).framer = framer := by
  rw [step_running hrun, h]
  rcases reply with error | _ | message
  · exact ⟨rfl, rfl⟩
  · rw [handle, read_events, read_framer]
    exact ⟨(List.append_nil _).symm, rfl⟩
  · exact ⟨rfl, rfl⟩

theorem step_eof (he : s.eof = true) : (s.step limits).eof = true := by
  rw [step]
  split_ifs
  · rcases s.call limits with trap | ⟨error | _ | message, framer, left⟩
    · exact he
    · exact he
    · rw [handle, read_eof]
      · exact he
      · exact he
    · exact he
  · exact he

theorem read_unread (h : s.eof = true → s.unread = []) :
    s.read.eof = true → s.read.unread = [] := by
  rw [read]
  split_ifs with hended
  · exact h
  · split
    · exact fun _ => ‹_›
    · exact fun he => absurd he hended

/-- The loop sees the end of the stream only when every read has been made. -/
theorem step_unread (h : s.eof = true → s.unread = []) :
    (s.step limits).eof = true → (s.step limits).unread = [] := by
  rw [step]
  split_ifs
  · rcases s.call limits with trap | ⟨error | _ | message, framer, left⟩
    · exact h
    · exact h
    · exact read_unread h
    · exact h
  · exact h

section Steps
variable {reply : Reply} {framer : Framer} {left : Bytes} (hrun : s.status = .running)
  (hcall : s.call limits = .ok (reply, framer, left))
include hrun hcall

theorem Framed.step_scanning (hscan : Scan ⟨false, true⟩ stream s.events mode s.remaining)
    (hended : s.eof = true → s.unread = [])
    (hcut : Scans limits s.eof mode s.buffer framer left reply) :
    ∃ place, (s.step limits).Framed limits stream place ∧ (s.step limits).Follows limits place := by
  obtain ⟨hevents, hframer⟩ := step_answered hrun hcall
  obtain ⟨hremaining, hkept⟩ := step_left hrun hcall
  have hbehind : left <:+ s.buffer → (s.step limits).remaining <:+ s.remaining := by
    rintro ⟨taken, htaken⟩
    rw [hremaining, remaining, ← htaken]
    exact ⟨taken, (List.append_assoc _ _ _).symm⟩
  cases hcut with
  | goes next scan tracks octet =>
    refine ⟨.scanning next, .scanning next ?_, ?_, ?_⟩
    · rw [hevents, hremaining]
      exact hscan.trans (scan.append Drops.append _)
    · rw [hframer]
      exact tracks.extend hkept
    · rw [hframer]
      exact octet
  | floods long behind octet =>
    refine ⟨.flooded, .flooded mode s.remaining ?_ (long _) (hbehind behind), ?_⟩
    · rw [hevents, answered, List.append_nil]
      exact hscan
    · rw [Follows, hframer]
      exact octet
  | ends fatal behind =>
    refine ⟨.rejected, .rejected mode s.remaining s.events _ hscan hevents fatal ?_
      (hbehind behind), trivial⟩
    rw [step_running hrun, hcall, handle, if_pos fatal]
  | releases sure body scan plain something ended emptied octet =>
    have hunread : s.unread.flatten = [] := by simp [hended ended]
    have hbuffer : s.remaining = s.buffer := by simp [remaining, hunread]
    rw [hbuffer] at hscan
    refine ⟨.released, .released sure body s.events ?_ plain something hevents (step_eof ended) ?_,
      ?_⟩
    · have hall := hscan.trans scan
      rwa [List.append_nil] at hall
    · rw [hremaining, emptied, hunread, List.append_nil]
    · rw [Follows, hframer]
      exact octet

theorem Framed.step_flooded {frame : Bytes}
    (hscan : Scan ⟨false, true⟩ stream s.events mode frame) (hlong : LongFrame limits frame)
    (hbehind : s.remaining <:+ frame) {state : State} (hoctet : s.framer.octetDecoding = some state)
    (hstate : state ≠ .notDiscarding) :
    ∃ place, (s.step limits).Framed limits stream place ∧ (s.step limits).Follows limits place := by
  obtain ⟨hevents, hframer⟩ := step_answered hrun hcall
  obtain ⟨hremaining, -⟩ := step_left hrun hcall
  have he : (s.framer.enter s.buffer).octetDecoding = some state := by
    rw [Framer.enter_of_some hoctet]
    exact hoctet
  obtain ⟨reply', next, left', hcall', hstep⟩ := call_octet limits he
  rw [hcall] at hcall'
  cases hcall'
  obtain ⟨⟨taken, htaken⟩, hanswer⟩ := octetStep_drops hstate hstep
  have hbehind' : (s.step limits).remaining <:+ frame := by
    refine List.IsSuffix.trans ⟨taken, ?_⟩ hbehind
    rw [hremaining, remaining, ← htaken, List.append_assoc]
  rcases hanswer with ⟨rfl, hnext⟩ | ⟨error, rfl, hfatal⟩
  · refine ⟨.flooded, .flooded mode frame ?_ hlong hbehind', ?_⟩
    · rw [hevents, answered, List.append_nil]
      exact hscan
    · rw [Follows, hframer]
      exact hnext
  · refine ⟨.rejected, .rejected mode frame s.events error hscan hevents hfatal ?_ hbehind',
      trivial⟩
    rw [step_running hrun, hcall, handle, if_pos hfatal]

end Steps

theorem Framed.step {place : Place} (h : s.Framed limits stream place)
    (hfollows : s.status = .running → s.Follows limits place)
    (hended : s.eof = true → s.unread = [])
    (hlead : s.status = .running →
      (s.framer.enter s.buffer).octetDecoding = some .notDiscarding → digitLed s.buffer = true) :
    ∃ place', (s.step limits).Framed limits stream place' ∧
      ((s.step limits).status = .running → (s.step limits).Follows limits place') := by
  by_cases hrun : s.status = .running
  swap
  · rw [step_stopped hrun]
    exact ⟨place, h, hfollows⟩
  have hfollows := hfollows hrun
  rcases hcall : s.call limits with trap | ⟨reply, framer, left⟩
  · rw [step_running hrun, hcall]
    refine ⟨place, ?_, fun hstill => by cases hstill⟩
    cases h with
    | scanning mode scan => exact .scanning mode scan
    | flooded mode frame scan long behind => exact .flooded mode frame scan long behind
    | rejected _ _ _ _ _ _ _ closed => simp [hrun] at closed
    | released sure body earlier scan plain something last ended emptied =>
      exact .released sure body earlier scan plain something last ended emptied
  cases h with
  | scanning mode scan =>
    obtain ⟨place', hframed, hnext⟩ := Framed.step_scanning hrun hcall scan hended
      (call_scans hfollows.1 hfollows.2 (hlead hrun) hcall)
    exact ⟨place', hframed, fun _ => hnext⟩
  | flooded mode frame scan long behind =>
    obtain ⟨state, hoctet, hstate⟩ := hfollows
    obtain ⟨place', hframed, hnext⟩ :=
      Framed.step_flooded hrun hcall scan long behind hoctet hstate
    exact ⟨place', hframed, fun _ => hnext⟩
  | rejected _ _ _ _ _ _ _ closed => simp [hrun] at closed
  | released sure body earlier scan plain something last ended emptied =>
    obtain ⟨hbuffer, hunread⟩ := List.append_eq_nil_iff.mp emptied
    obtain ⟨rfl, rfl⟩ := call_nil hbuffer hfollows hcall
    obtain ⟨hevents, -⟩ := step_answered hrun hcall
    obtain ⟨hremaining, -⟩ := step_left hrun hcall
    refine ⟨.released, .released sure body earlier scan plain something ?_ (step_eof ended) ?_, ?_⟩
    · rw [hevents, last, answered, List.append_nil]
    · rw [hremaining, hunread, List.append_nil]
    · intro hstill
      rw [step_running hrun, hcall, handle, read, if_pos ended] at hstill
      cases hstill

end Session

/-- At every point of every stream, however it is cut into reads, the events are those of the
frames in it, and what remains is behind them. -/
theorem messages_framed (limits : Limits) (chunks : List Bytes) (n : ℕ) :
    ∃ place, ((Session.step limits)^[n] (.start chunks)).Framed limits chunks.flatten place := by
  let run := fun n => (Session.step limits)^[n] (.start chunks)
  have hrun : ∀ n, run (n + 1) = (run n).step limits :=
    fun n => Function.iterate_succ_apply' _ _ _
  have hended : ∀ n, (run n).eof = true → (run n).unread = [] := by
    intro n
    induction n with
    | zero => intro he; cases he
    | succ n ih =>
      rw [hrun]
      exact Session.step_unread ih
  have hframed : ∀ n, ∃ place, (run n).Framed limits chunks.flatten place ∧
      ((run n).status = .running → (run n).Follows limits place) := by
    intro n
    induction n with
    | zero =>
      exact ⟨.scanning ⟨false, true⟩, .scanning _ (.done _ _),
        fun _ => ⟨⟨rfl, fun _ => Synced.of_zero rfl _⟩, by simp [run, Session.start, Framer.new]⟩⟩
    | succ n ih =>
      obtain ⟨place, hplace, hfollows⟩ := ih
      rw [hrun]
      refine hplace.step hfollows (hended n) (fun hrunning mode => ?_)
      exact ((Session.run_traced hrun rfl n hrunning).header_enter mode).1
  obtain ⟨place, hplace, -⟩ := hframed n
  exact ⟨place, hplace⟩

-- behind a rejected line, a digit and a read that cuts its frame, the next line holds newlines
example : ((Session.step ⟨64, 10, by decide⟩)^[8]
    (.start [[97, 97, 97, 97, 97, 97, 97, 97, 97, 97, 97, 97, 10, 51, 32, 97, 98],
      [99, 120, 10, 121, 10, 122, 122, 10]])).events =
    [.rejected (recoverableError .oversize), .message [97, 98, 99],
      .message [120, 10, 121, 10, 122, 122]] := by decide

end HyperRuby.Framing
