import HyperRuby.Framing.Bytes

/-! # The line codec behind the newline fallback

`LinesCodec` of tokio-util 0.7.13, with its search cursor `next_index` and its
discard flag. Slicing `buf[next_index..read_to]` panics when the cursor lies
beyond `read_to`; the model returns a `Trap` there. A closed form of the loop
is proved for every cursor that is in range and has only non-newline bytes
before it.
-/
namespace HyperRuby.Framing

/-- Ways a call can fail to return a value. -/
inductive Trap where
  | indexOutOfRange
  | outOfFuel
  deriving DecidableEq, Repr

inductive LinesCodecError where
  | maxLineLengthExceeded
  | io
  deriving DecidableEq, Repr

/-- The mutable fields; `max_length` never changes and is passed alongside. -/
structure LinesCodec where
  nextIndex : ℕ
  isDiscarding : Bool
  deriving DecidableEq, Repr

def LinesCodec.new : LinesCodec := ⟨0, false⟩

abbrev LinesReply := Except LinesCodecError (Option Bytes)

def withoutCarriageReturn (line : Bytes) : Bytes :=
  if line.getLast? = some carriageReturn then line.dropLast else line

def utf8 (line : Bytes) : LinesReply :=
  if fromUtf8 line then .ok (some line) else .error .io

namespace LinesCodec

/-- The `loop` of `LinesCodec::decode`; every turn that repeats drops a byte. -/
def decodeLoop (maxLength : ℕ) :
    ℕ → LinesCodec → Bytes → Except Trap (LinesReply × LinesCodec × Bytes)
  | 0, _, _ => .error .outOfFuel
  | fuel + 1, codec, buf =>
    let readTo := min (maxLength + 1) buf.length
    if readTo < codec.nextIndex then .error .indexOutOfRange
    else
      match codec.isDiscarding, position newline ((buf.take readTo).drop codec.nextIndex) with
      | true, some offset =>
        decodeLoop maxLength fuel ⟨0, false⟩ (buf.drop (offset + codec.nextIndex + 1))
      | true, none =>
        if buf.drop readTo = [] then .ok (.ok none, ⟨0, true⟩, [])
        else decodeLoop maxLength fuel ⟨0, true⟩ (buf.drop readTo)
      | false, some offset =>
        let newlineIndex := offset + codec.nextIndex
        .ok (utf8 (withoutCarriageReturn (buf.take newlineIndex)), ⟨0, false⟩,
          buf.drop (newlineIndex + 1))
      | false, none =>
        if maxLength < buf.length then
          .ok (.error .maxLineLengthExceeded, { codec with isDiscarding := true }, buf)
        else .ok (.ok none, { codec with nextIndex := readTo }, buf)

def decode (maxLength : ℕ) (codec : LinesCodec) (buf : Bytes) :
    Except Trap (LinesReply × LinesCodec × Bytes) :=
  decodeLoop maxLength (buf.length + 1) codec buf

/-- What `decode_eof` makes of the outcome of `decode`: an unterminated line is released,
unless it is empty or a lone CR. -/
def release : LinesReply × LinesCodec × Bytes → LinesReply × LinesCodec × Bytes
  | (.ok none, codec, buf) =>
    if buf = [] ∨ buf = [carriageReturn] then (.ok none, { codec with nextIndex := 0 }, buf)
    else (utf8 (withoutCarriageReturn buf), { codec with nextIndex := 0 }, [])
  | other => other

def decodeEof (maxLength : ℕ) (codec : LinesCodec) (buf : Bytes) :
    Except Trap (LinesReply × LinesCodec × Bytes) :=
  (decode maxLength codec buf).map release

/-- The cursor can be sliced at, and what it skips holds no newline. -/
structure InRange (maxLength : ℕ) (codec : LinesCodec) (buf : Bytes) : Prop where
  bound : codec.nextIndex ≤ min (maxLength + 1) buf.length
  clear : newline ∉ buf.take codec.nextIndex

theorem inRange_zero (maxLength : ℕ) (discarding : Bool) (buf : Bytes) :
    InRange maxLength ⟨0, discarding⟩ buf := ⟨by simp, by simp⟩

/-- Reading one line from its start, with no reference to the cursor. -/
def scanLine (maxLength cursor : ℕ) (buf : Bytes) : LinesReply × LinesCodec × Bytes :=
  match position newline (buf.take (maxLength + 1)) with
  | some p => (utf8 (withoutCarriageReturn (buf.take p)), ⟨0, false⟩, buf.drop (p + 1))
  | none =>
    if maxLength < buf.length then (.error .maxLineLengthExceeded, ⟨cursor, true⟩, buf)
    else (.ok none, ⟨buf.length, false⟩, buf)

theorem utf8_ne_none (line : Bytes) : utf8 line ≠ .ok none := by
  unfold utf8
  split_ifs <;> simp

theorem scanLine_none {maxLength cursor : ℕ} {buf : Bytes}
    (h : (scanLine maxLength cursor buf).1 = .ok none) :
    newline ∉ buf ∧ buf.length ≤ maxLength ∧
      scanLine maxLength cursor buf = (.ok none, ⟨buf.length, false⟩, buf) := by
  rw [scanLine] at h ⊢
  split at h
  · exact absurd h (utf8_ne_none _)
  · rename_i hp
    split_ifs at h with hlen
    rw [List.take_of_length_le (by omega), position_eq_none] at hp
    exact ⟨hp, by omega, by simp [hlen]⟩

/-- Dropping the rest of an oversize line and reading on behind its newline. -/
def skipLine (maxLength : ℕ) (buf : Bytes) : LinesReply × LinesCodec × Bytes :=
  match afterNewline buf with
  | some rest => scanLine maxLength 0 rest
  | none => (.ok none, ⟨0, true⟩, [])

theorem take_readTo (maxLength : ℕ) (buf : Bytes) :
    buf.take (min (maxLength + 1) buf.length) = buf.take (maxLength + 1) := by
  rw [List.take_eq_take_min (i := maxLength + 1)]

theorem search_cursor {maxLength : ℕ} {codec : LinesCodec} {buf : Bytes}
    (h : InRange maxLength codec buf) :
    position newline (buf.take (maxLength + 1)) =
      (position newline ((buf.take (min (maxLength + 1) buf.length)).drop codec.nextIndex)).map
        (codec.nextIndex + ·) := by
  have hb := h.bound
  have hsplit : buf.take (maxLength + 1) =
      buf.take codec.nextIndex ++ (buf.take (maxLength + 1)).drop codec.nextIndex := by
    conv_lhs => rw [← List.take_append_drop codec.nextIndex (buf.take (maxLength + 1))]
    rw [List.take_take, min_eq_left (by omega)]
  rw [take_readTo]
  conv_lhs => rw [hsplit]
  rw [position_append_right h.clear, List.length_take, min_eq_left (by omega)]

theorem decodeLoop_scan {maxLength fuel : ℕ} {codec : LinesCodec} {buf : Bytes}
    (h : InRange maxLength codec buf) (hd : codec.isDiscarding = false) :
    decodeLoop maxLength (fuel + 1) codec buf =
      .ok (scanLine maxLength codec.nextIndex buf) := by
  have hb := h.bound
  have hs := search_cursor h
  rw [decodeLoop, if_neg (by omega), scanLine]
  split
  · rename_i hd' _
    rw [hd] at hd'
    cases hd'
  · rename_i hd' _
    rw [hd] at hd'
    cases hd'
  · rename_i offset _ hp
    rw [hp, Option.map_some] at hs
    rw [hs, Nat.add_comm codec.nextIndex offset]
  · rename_i _ hp
    rw [hp, Option.map_none] at hs
    rw [hs]
    split_ifs with hlen
    · rfl
    · rw [hd, min_eq_right (by omega)]

/-- A clear cursor makes no difference to where the line ends that is dropped. -/
theorem skipLine_drop {maxLength n : ℕ} {buf : Bytes} (h : newline ∉ buf.take n) :
    skipLine maxLength (buf.drop n) = skipLine maxLength buf := by
  have hafter : afterNewline buf = afterNewline (buf.drop n) := by
    conv_lhs => rw [← List.take_append_drop n buf]
    exact afterNewline_skip h _
  rw [skipLine, skipLine, hafter]

/-- The discard ends at the first newline behind the cursor, also where there is one before it. -/
theorem decodeLoop_skip {maxLength fuel : ℕ} {codec : LinesCodec} {buf : Bytes}
    (hb : codec.nextIndex ≤ min (maxLength + 1) buf.length) (hd : codec.isDiscarding = true)
    (hf : buf.length < fuel) :
    decodeLoop maxLength fuel codec buf =
      .ok (skipLine maxLength (buf.drop codec.nextIndex)) := by
  induction fuel generalizing codec buf with
  | zero => omega
  | succ fuel ih =>
    have hsplit : buf.drop codec.nextIndex =
        (buf.take (min (maxLength + 1) buf.length)).drop codec.nextIndex ++
          buf.drop (min (maxLength + 1) buf.length) := by
      rw [← List.drop_append_of_le_length (by rw [List.length_take]; omega), List.take_append_drop]
    rw [decodeLoop, if_neg (by omega)]
    split
    · rename_i offset _ hp
      have hpos : position newline (buf.drop codec.nextIndex) = some offset := by
        rw [hsplit]
        exact position_append_left hp _
      have hlt := position_lt hpos
      rw [List.length_drop] at hlt
      rw [skipLine, afterNewline, hpos, Option.map_some, List.drop_drop,
        show codec.nextIndex + (offset + 1) = offset + codec.nextIndex + 1 by omega]
      cases fuel with
      | zero => omega
      | succ fuel => exact decodeLoop_scan (inRange_zero _ _ _) rfl
    · rename_i _ hp
      rw [position_eq_none] at hp
      rw [skipLine, hsplit, afterNewline_skip hp, ← skipLine]
      split_ifs with hrest
      · rw [hrest]
        rfl
      · have hne : (buf.drop (min (maxLength + 1) buf.length)).length ≠ 0 :=
          fun h0 => hrest (List.length_eq_zero_iff.mp h0)
        rw [List.length_drop] at hne
        exact ih (Nat.zero_le _) rfl (by rw [List.length_drop]; omega)
    · rename_i hd' _
      rw [hd] at hd'
      cases hd'
    · rename_i hd' _
      rw [hd] at hd'
      cases hd'

/-- One call of the line codec, with no reference to the search. -/
def readLine (maxLength : ℕ) (codec : LinesCodec) (buf : Bytes) :
    LinesReply × LinesCodec × Bytes :=
  if codec.isDiscarding then skipLine maxLength buf else scanLine maxLength codec.nextIndex buf

/-- Closed form of `decode` for every cursor in range. -/
theorem decode_eq {maxLength : ℕ} {codec : LinesCodec} {buf : Bytes}
    (h : InRange maxLength codec buf) :
    decode maxLength codec buf = .ok (readLine maxLength codec buf) := by
  rw [readLine]
  cases hd : codec.isDiscarding with
  | false => exact decodeLoop_scan h hd
  | true =>
    rw [decode, decodeLoop_skip h.bound hd (Nat.lt_succ_self _), skipLine_drop h.clear]
    rfl

theorem decodeEof_eq {maxLength : ℕ} {codec : LinesCodec} {buf : Bytes}
    (h : InRange maxLength codec buf) :
    decodeEof maxLength codec buf = .ok (release (readLine maxLength codec buf)) := by
  rw [decodeEof, decode_eq h]
  rfl

/-- One turn of the loop while no line is being dropped, whatever the cursor. -/
inductive Scanned (maxLength : ℕ) (codec : LinesCodec) (buf : Bytes) :
    LinesReply → LinesCodec → Bytes → Prop where
  | line (body rest : Bytes) (found : buf = body ++ newline :: rest)
      (past : codec.nextIndex ≤ body.length) (ahead : newline ∉ body.drop codec.nextIndex) :
      Scanned maxLength codec buf (utf8 (withoutCarriageReturn body)) ⟨0, false⟩ rest
  | exceeded (long : maxLength < buf.length)
      (ahead : newline ∉ (buf.take (maxLength + 1)).drop codec.nextIndex) :
      Scanned maxLength codec buf (.error .maxLineLengthExceeded)
        { codec with isDiscarding := true } buf
  | waiting (short : buf.length ≤ maxLength) (ahead : newline ∉ buf.drop codec.nextIndex) :
      Scanned maxLength codec buf (.ok none) ⟨buf.length, false⟩ buf

section Turns
variable {maxLength : ℕ} {codec codec' : LinesCodec} {buf rest : Bytes} {reply : LinesReply}

theorem cursor_le_of_decode (h : decode maxLength codec buf = .ok (reply, codec', rest)) :
    codec.nextIndex ≤ min (maxLength + 1) buf.length := by
  by_contra hbeyond
  rw [decode, decodeLoop, if_pos (by omega)] at h
  cases h

theorem position_cut {b : UInt8} {n k offset : ℕ}
    (h : position b ((buf.take n).drop k) = some offset) (hk : k ≤ (buf.take n).length) :
    ∃ body rest, buf = body ++ b :: rest ∧ body.length = offset + k ∧ b ∉ body.drop k := by
  obtain ⟨p, r, hsplit, hp, rfl⟩ := position_eq_some.mp h
  refine ⟨(buf.take n).take k ++ p, r ++ buf.drop n, ?_, ?_, ?_⟩
  · conv_lhs => rw [← List.take_append_drop n buf, ← List.take_append_drop k (buf.take n), hsplit]
    simp only [List.append_assoc, List.cons_append]
  · rw [List.length_append, List.length_take_of_le hk, Nat.add_comm]
  · rwa [List.drop_left' (List.length_take_of_le hk)]

theorem decode_scanned (hd : codec.isDiscarding = false)
    (h : decode maxLength codec buf = .ok (reply, codec', rest)) :
    Scanned maxLength codec buf reply codec' rest := by
  have hbound := cursor_le_of_decode h
  rw [decode, decodeLoop, if_neg (by omega), hd, take_readTo] at h
  cases hp : position newline ((buf.take (maxLength + 1)).drop codec.nextIndex) with
  | some offset =>
    rw [hp] at h
    cases h
    obtain ⟨body, rest, rfl, hbody, hahead⟩ := position_cut hp (by rw [List.length_take]; omega)
    rw [← hbody, List.take_left, Library.drop_split]
    exact .line body rest rfl (by omega) hahead
  | none =>
    rw [hp] at h
    rw [position_eq_none] at hp
    dsimp only at h
    split_ifs at h with hlong
    · cases h
      exact .exceeded hlong hp
    · cases h
      rw [List.take_of_length_le (by omega)] at hp
      rw [min_eq_right (by omega)]
      exact .waiting (by omega) hp

/-- While a line is being dropped, a call drops all of the buffer, or up to the first newline
behind the cursor and goes on with what follows. -/
theorem decode_dropping (hd : codec.isDiscarding = true)
    (h : decode maxLength codec buf = .ok (reply, codec', rest)) :
    (newline ∉ buf.drop codec.nextIndex ∧ reply = .ok none ∧ codec' = ⟨0, true⟩ ∧ rest = []) ∨
      ∃ line, afterNewline (buf.drop codec.nextIndex) = some line ∧
        Scanned maxLength ⟨0, false⟩ line reply codec' rest := by
  rw [decode, decodeLoop_skip (cursor_le_of_decode h) hd (Nat.lt_succ_self _), skipLine] at h
  cases hafter : afterNewline (buf.drop codec.nextIndex) with
  | none =>
    rw [hafter] at h
    cases h
    exact .inl ⟨afterNewline_eq_none.mp hafter, rfl, rfl, rfl⟩
  | some line =>
    rw [hafter] at h
    refine .inr ⟨line, rfl, decode_scanned rfl ?_⟩
    rw [decode, decodeLoop_scan (inRange_zero _ _ _) rfl]
    exact h

end Turns

/-- Bytes left, counted twice, and one more while no line is being discarded. -/
def weight (codec : LinesCodec) (buf : Bytes) : ℕ :=
  2 * buf.length + if codec.isDiscarding then 0 else 1

theorem weight_drop {n : ℕ} {buf : Bytes} (codec codec' : LinesCodec) (hn : 0 < n)
    (hb : 0 < buf.length) : weight codec' (buf.drop n) < weight codec buf := by
  simp only [weight, List.length_drop]
  split_ifs <;> omega

/-- Everything the loop can return, turn by turn, whatever the cursor. -/
inductive LoopStep (maxLength : ℕ) :
    LinesCodec → Bytes → LinesReply → LinesCodec → Bytes → Prop where
  | passed {codec codec' : LinesCodec} {buf rest : Bytes} {reply : LinesReply} (p : ℕ)
      (inside : p < buf.length)
      (again : LoopStep maxLength ⟨0, false⟩ (buf.drop (p + 1)) reply codec' rest) :
      LoopStep maxLength codec buf reply codec' rest
  | dropped {codec codec' : LinesCodec} {buf rest : Bytes} {reply : LinesReply}
      (more : maxLength + 1 < buf.length)
      (again : LoopStep maxLength ⟨0, true⟩ (buf.drop (maxLength + 1)) reply codec' rest) :
      LoopStep maxLength codec buf reply codec' rest
  | emptied {codec : LinesCodec} {buf : Bytes} :
      LoopStep maxLength codec buf (.ok none) ⟨0, true⟩ []
  | line {codec : LinesCodec} {buf : Bytes} (p : ℕ) (near : p ≤ maxLength)
      (inside : p < buf.length) :
      LoopStep maxLength codec buf (utf8 (withoutCarriageReturn (buf.take p))) ⟨0, false⟩
        (buf.drop (p + 1))
  | exceeded {codec : LinesCodec} {buf : Bytes} (idle : codec.isDiscarding = false)
      (long : maxLength < buf.length) :
      LoopStep maxLength codec buf (.error .maxLineLengthExceeded)
        { codec with isDiscarding := true } buf
  | waiting {codec : LinesCodec} {buf : Bytes} (short : buf.length ≤ maxLength) :
      LoopStep maxLength codec buf (.ok none) { codec with nextIndex := buf.length } buf

theorem decodeLoop_step {maxLength fuel : ℕ} {codec codec' : LinesCodec} {buf rest : Bytes}
    {reply : LinesReply}
    (h : decodeLoop maxLength fuel codec buf = .ok (reply, codec', rest)) :
    LoopStep maxLength codec buf reply codec' rest := by
  induction fuel generalizing codec buf with
  | zero => cases h
  | succ fuel ih =>
    rw [decodeLoop] at h
    dsimp only at h
    split at h
    · cases h
    split at h
    · rename_i offset _ hp
      have hlt := position_lt hp
      rw [List.length_drop, List.length_take] at hlt
      exact .passed _ (by omega) (ih h)
    · split at h
      · cases h
        exact .emptied
      · rename_i hrest
        rw [List.drop_eq_nil_iff, not_le] at hrest
        rw [min_eq_left (by omega)] at h
        exact .dropped (by omega) (ih h)
    · rename_i offset _ hp
      have hlt := position_lt hp
      rw [List.length_drop, List.length_take] at hlt
      cases h
      exact .line _ (by omega) (by omega)
    · rename_i hd _
      split at h
      · cases h
        exact .exceeded hd ‹_›
      · cases h
        rw [min_eq_right (by omega)]
        exact .waiting (by omega)

theorem LoopStep.progress {maxLength : ℕ} {codec codec' : LinesCodec} {buf rest : Bytes}
    {reply : LinesReply} (h : LoopStep maxLength codec buf reply codec' rest) :
    weight codec' rest ≤ weight codec buf ∧
      (reply ≠ .ok none → weight codec' rest < weight codec buf) := by
  induction h with
  | @passed codec _ buf _ _ p inside again ih =>
    have hw := weight_drop codec ⟨0, false⟩ (n := p + 1) (by omega) (show 0 < buf.length by omega)
    have hle := ih.1
    exact ⟨by omega, fun _ => by omega⟩
  | @dropped codec _ buf _ _ more again ih =>
    have hw := weight_drop codec ⟨0, true⟩ (n := maxLength + 1) (by omega)
      (show 0 < buf.length by omega)
    have hle := ih.1
    exact ⟨by omega, fun _ => by omega⟩
  | emptied => simp [weight]
  | @line codec buf p near inside =>
    have hw := weight_drop codec ⟨0, false⟩ (n := p + 1) (by omega) (show 0 < buf.length by omega)
    exact ⟨by omega, fun _ => by omega⟩
  | exceeded idle long => simp [weight, idle]
  | waiting short => simp [weight]

theorem decodeEof_step {maxLength : ℕ} {codec : LinesCodec} {buf : Bytes}
    {out : LinesReply × LinesCodec × Bytes} (h : decodeEof maxLength codec buf = .ok out) :
    ∃ reply codec' rest, LoopStep maxLength codec buf reply codec' rest ∧
      out = release (reply, codec', rest) := by
  rw [decodeEof] at h
  cases hdec : decode maxLength codec buf with
  | error trap =>
    rw [hdec] at h
    cases h
  | ok out' =>
    rw [hdec] at h
    exact ⟨_, _, _, decodeLoop_step hdec, (Except.ok.inj h).symm⟩

theorem release_none (codec : LinesCodec) (buf : Bytes) :
    release (.ok none, codec, buf) = (.ok none, { codec with nextIndex := 0 }, buf) ∨
      (buf ≠ [] ∧ release (.ok none, codec, buf) =
        (utf8 (withoutCarriageReturn buf), { codec with nextIndex := 0 }, [])) := by
  by_cases h : buf = [] ∨ buf = [carriageReturn]
  · exact .inl (if_pos h)
  · exact .inr ⟨fun hnil => h (.inl hnil), if_neg h⟩

theorem LoopStep.release_progress {maxLength : ℕ} {codec codec' : LinesCodec} {buf rest : Bytes}
    {reply : LinesReply} (h : LoopStep maxLength codec buf reply codec' rest) :
    weight (release (reply, codec', rest)).2.1 (release (reply, codec', rest)).2.2 ≤
        weight codec buf ∧
      ((release (reply, codec', rest)).1 ≠ .ok none →
        weight (release (reply, codec', rest)).2.1 (release (reply, codec', rest)).2.2 <
          weight codec buf) := by
  have hprogress := h.progress
  match reply, hprogress with
  | .error error, hprogress => exact hprogress
  | .ok (some bytes), hprogress => exact hprogress
  | .ok none, hprogress =>
    rcases release_none codec' rest with hkept | ⟨hne, hreleased⟩
    · rw [hkept]
      exact hprogress
    · rw [hreleased]
      have hpos : 0 < rest.length := List.length_pos_iff.mpr hne
      have hfall : weight { codec' with nextIndex := 0 } [] < weight codec' rest := by
        simp only [weight, List.length_nil]
        omega
      have hlt := lt_of_lt_of_le hfall hprogress.1
      exact ⟨Nat.le_of_lt hlt, fun _ => hlt⟩

end LinesCodec
end HyperRuby.Framing
