import HyperRuby.Library.Word
import HyperRuby.Framing.Held

/-! # The word arithmetic of octet counting

`octet_decode` once more, with its additions and its subtraction left open. Exact arithmetic
gives the model the rest of the development is about. A build that wraps around computes the
same replies, and a build with overflow checks fails on exactly one kind of header: the end of
the frame is added up before its length is compared with the limit.
-/
namespace HyperRuby.Framing
open Library

namespace Framer

def octetFrameWith (arith : Arithmetic) (limits : Limits) (framer : Framer) (spacePos : ℕ)
    (src : Bytes) : Option (Except Trap (Reply × Framer × Bytes)) :=
  match headerLength limits.wordSize (src.take spacePos) with
  | none =>
    (arith.add spacePos 1).map (fun past => (advance past src).map (fun rest =>
      (.error (fatalError .invalidLength), { framer with octetDecoding := none }, rest)))
  | some len =>
    (arith.add spacePos 1).bind (fun start => (arith.add start len).bind (fun stop =>
      if limits.maxLength < len then
        (arith.add spacePos 1).map (fun past => (advance past src).map (fun rest =>
          (.ok none, { framer with octetDecoding := some (.discarding len) }, rest)))
      -- `get(from..to)` has no value when the range is not one of the buffer
      else if start ≤ stop ∧ stop ≤ src.length then
        let msg := (src.take stop).drop start
        some ((advance stop src).map
          (fun rest => (if fromUtf8 msg then .ok (some msg) else .error (fatalError .invalidUtf8),
            { framer with octetDecoding := none }, rest)))
      else some (.ok (.ok none, framer, src))))

def octetHeaderWith (arith : Arithmetic) (limits : Limits) (framer : Framer) (src : Bytes) :
    Option (Except Trap (Reply × Framer × Bytes)) :=
  match position newline src with
  | some newlinePos =>
    (arith.add newlinePos 1).map (fun past => (advance past src).map
      (fun rest => (.error (fatalError .oversize), framer, rest)))
  | none =>
    if src.length < limits.maxLength then some (.ok (.ok none, framer, src))
    else
      some ((advance src.length src).map
        (fun rest => (.ok none, { framer with octetDecoding := some .discardingToEol }, rest)))

/-- `octet_decode` over an arithmetic; no value is a failed overflow check. -/
def octetDecodeWith (arith : Arithmetic) (limits : Limits) (framer : Framer) (state : State)
    (src : Bytes) : Option (Except Trap (Reply × Framer × Bytes)) :=
  match state, position newline src, position space src with
  | .discarding chars, _, _ =>
    if chars ≤ src.length then
      some ((advance chars src).map
        (fun rest => (.error (fatalError .oversize), { framer with octetDecoding := none }, rest)))
    else
      (arith.sub chars src.length).map (fun left => (advance src.length src).map
        (fun rest => (.ok none, { framer with octetDecoding := some (.discarding left) }, rest)))
  | .discardingToEol, some offset, _ =>
    (arith.add offset 1).map (fun past => (advance past src).map
      (fun rest => (.error (fatalError .oversize), { framer with octetDecoding := none }, rest)))
  | .discardingToEol, none, _ =>
    some ((advance src.length src).map (fun rest => (.ok none, framer, rest)))
  | .notDiscarding, _, some spacePos =>
    if spacePos < limits.maxLength then octetFrameWith arith limits framer spacePos src
    else octetHeaderWith arith limits framer src
  | .notDiscarding, _, none => octetHeaderWith arith limits framer src

end Framer

/-- The count of a frame being dropped is a word. -/
def State.Fits (w : ℕ) : State → Prop
  | .discarding chars => chars < 2 ^ w
  | _ => True

/-- A header is read whose length, added to where the frame starts, leaves the word. -/
def HeaderOverflows (limits : Limits) (state : State) (src : Bytes) : Prop :=
  state = .notDiscarding ∧ ∃ spacePos ∈ position space src, spacePos < limits.maxLength ∧
    ∃ len ∈ headerLength limits.wordSize (src.take spacePos),
      2 ^ limits.wordSize ≤ spacePos + 1 + len

instance (limits : Limits) (state : State) (src : Bytes) :
    Decidable (HeaderOverflows limits state src) := inferInstanceAs (Decidable (_ ∧ _))

theorem headerLength_lt {w len : ℕ} {digits : Bytes} (h : headerLength w digits = some len) :
    len < 2 ^ w := by
  unfold headerLength at h
  split_ifs at h
  have hdigits : ∀ {s : Bytes}, parseDigits w 0 s = some len → len < 2 ^ w := fun hs =>
    (parseDigits_bounds hs (Nat.two_pow_pos w)).2
  unfold parseUsize at h
  split at h
  · cases h
  · split_ifs at h <;> exact hdigits h

/-- An arithmetic that computes what exact arithmetic does wherever a call depends on it. -/
structure Faithful (arith : Arithmetic) (limits : Limits) (state : State) (src : Bytes) : Prop where
  past : ∀ pos < src.length, arith.add pos 1 = some (pos + 1)
  countdown : ∀ chars, state = .discarding chars → src.length < chars →
    arith.sub chars src.length = some (chars - src.length)
  stop : ∀ spacePos len, state = .notDiscarding → position space src = some spacePos →
    spacePos < limits.maxLength →
    headerLength limits.wordSize (src.take spacePos) = some len →
    ∃ stop, arith.add (spacePos + 1) len = some stop ∧
      (stop = spacePos + 1 + len ∨
        (src.length < spacePos + 1 + len ∧ ¬ (spacePos + 1 ≤ stop ∧ stop ≤ src.length)))

namespace Faithful
variable {arith : Arithmetic} {limits : Limits} {state : State} {src : Bytes}

theorem octetFrame (h : Faithful arith limits .notDiscarding src) (framer : Framer) {spacePos : ℕ}
    (hspace : position space src = some spacePos) (hnear : spacePos < limits.maxLength) :
    Framer.octetFrameWith arith limits framer spacePos src =
      some (Framer.octetFrame limits framer spacePos src) := by
  have hpast := h.past spacePos (position_lt hspace)
  rw [Framer.octetFrameWith, Framer.octetFrame]
  cases hvalue : headerLength limits.wordSize (src.take spacePos) with
  | none => simp only [hpast, Option.map_some]
  | some len =>
    obtain ⟨stop, hadd, hstop⟩ := h.stop spacePos len rfl hspace hnear hvalue
    simp only [hpast, hadd, Option.bind_some, Option.map_some]
    by_cases hbig : limits.maxLength < len
    · simp only [if_pos hbig]
    · simp only [if_neg hbig]
      rcases hstop with rfl | ⟨hshort, hout⟩
      · by_cases hend : spacePos + 1 + len ≤ src.length
        · rw [if_pos ⟨Nat.le_add_right _ _, hend⟩, if_pos hend]
        · rw [if_neg (fun hslice => hend hslice.2), if_neg hend]
      · rw [if_neg hout, if_neg (by omega)]

theorem octetHeader (h : Faithful arith limits state src) (framer : Framer) :
    Framer.octetHeaderWith arith limits framer src =
      some (Framer.octetHeader limits framer src) := by
  rw [Framer.octetHeaderWith, Framer.octetHeader]
  cases hnewline : position newline src with
  | none => split_ifs <;> rfl
  | some pos => simp only [h.past pos (position_lt hnewline), Option.map_some]

theorem octetDecode (h : Faithful arith limits state src) (framer : Framer) :
    Framer.octetDecodeWith arith limits framer state src =
      some (Framer.octetDecode limits framer state src) := by
  cases state with
  | discarding chars =>
    simp only [Framer.octetDecodeWith, Framer.octetDecode]
    split_ifs with henough
    · rfl
    · rw [h.countdown chars rfl (Nat.lt_of_not_le henough), Option.map_some]
  | discardingToEol =>
    cases hnewline : position newline src with
    | none => simp only [Framer.octetDecodeWith, Framer.octetDecode, hnewline]
    | some pos =>
      simp only [Framer.octetDecodeWith, Framer.octetDecode, hnewline,
        h.past pos (position_lt hnewline), Option.map_some]
  | notDiscarding =>
    cases hspace : position space src with
    | none =>
      simp only [Framer.octetDecodeWith, Framer.octetDecode, hspace]
      exact h.octetHeader framer
    | some pos =>
      simp only [Framer.octetDecodeWith, Framer.octetDecode, hspace]
      split_ifs with hnear
      · exact h.octetFrame framer hspace hnear
      · exact h.octetHeader framer

end Faithful

section Builds
variable {limits : Limits} {state : State} {src : Bytes}

theorem octetDecode_exact (limits : Limits) (framer : Framer) (state : State) (src : Bytes) :
    Framer.octetDecodeWith .exact limits framer state src =
      some (Framer.octetDecode limits framer state src) := by
  have hfaithful : Faithful .exact limits state src :=
    ⟨fun _ _ => rfl, fun _ _ _ => rfl, fun _ _ _ _ _ _ => ⟨_, rfl, .inl rfl⟩⟩
  exact hfaithful.octetDecode framer

/-- Without overflow checks the end of a frame may wrap, but no call depends on it then. -/
theorem wrapping_faithful (hfits : state.Fits limits.wordSize)
    (hsrc : src.length < 2 ^ limits.wordSize) :
    Faithful (.wrapping limits.wordSize) limits state src := by
  refine ⟨fun pos hpos => ?_, fun chars hstate hshort => ?_,
    fun spacePos len _ hspace _ hvalue => ?_⟩
  · exact Arithmetic.wrapping_add (by omega)
  · subst hstate
    exact Arithmetic.wrapping_sub (by omega) hfits
  · have hpos := position_lt hspace
    refine ⟨_, rfl, ?_⟩
    have hslice := Framer.slice_wrapping hsrc (headerLength_lt hvalue)
      (show spacePos + 1 ≤ src.length by omega)
    by_cases hend : spacePos + 1 + len ≤ src.length
    · exact .inl (Nat.mod_eq_of_lt (by omega))
    · exact .inr ⟨by omega, fun hget => hend (hslice.mp hget)⟩

theorem checked_faithful (hfits : state.Fits limits.wordSize)
    (hsrc : src.length < 2 ^ limits.wordSize) (hheader : ¬ HeaderOverflows limits state src) :
    Faithful (.checked limits.wordSize) limits state src := by
  refine ⟨fun pos hpos => ?_, fun chars hstate hshort => ?_,
    fun spacePos len hstate hspace hnear hvalue => ?_⟩
  · exact Arithmetic.checked_add (by omega)
  · subst hstate
    exact Arithmetic.checked_sub (by omega) hfits
  · have hsum : spacePos + 1 + len < 2 ^ limits.wordSize := by
      by_contra hout
      exact hheader ⟨hstate, spacePos, hspace, hnear, len, hvalue, by omega⟩
    exact ⟨_, Arithmetic.checked_add hsum, .inl rfl⟩

theorem HeaderOverflows.fails (h : HeaderOverflows limits state src)
    (hsrc : src.length < 2 ^ limits.wordSize) (framer : Framer) :
    Framer.octetDecodeWith (.checked limits.wordSize) limits framer state src = none := by
  obtain ⟨rfl, spacePos, hspace, hnear, len, hvalue, hout⟩ := h
  rw [Option.mem_def] at hspace hvalue
  have hpos := position_lt hspace
  simp only [Framer.octetDecodeWith, hspace, if_pos hnear, Framer.octetFrameWith, hvalue]
  rw [Arithmetic.checked_add (by omega), Option.bind_some, Arithmetic.checked_add_overflow hout,
    Option.bind_none]

theorem octetDecode_checked (hfits : state.Fits limits.wordSize)
    (hsrc : src.length < 2 ^ limits.wordSize) (framer : Framer) :
    (Framer.octetDecodeWith (.checked limits.wordSize) limits framer state src).isSome = true ↔
      ¬ HeaderOverflows limits state src := by
  constructor
  · intro hsome hheader
    rw [hheader.fails hsrc framer] at hsome
    cases hsome
  · intro hheader
    rw [(checked_faithful hfits hsrc hheader).octetDecode framer]
    rfl

end Builds

theorem octetStep_fits {limits : Limits} {state next : State} {src left : Bytes} {reply : Reply}
    (h : Framer.OctetStep limits state src reply (some next) left)
    (hfits : state.Fits limits.wordSize) : next.Fits limits.wordSize := by
  generalize hn : some next = onward at h
  cases h with
  | skipping chars _ short =>
    cases hn
    exact Nat.lt_of_le_of_lt (Nat.sub_le _ _) hfits
  | tooLong digits rest len token near value big =>
    cases hn
    exact headerLength_lt value
  | unsynced | incomplete | overrun | waiting | flooded =>
    cases hn
    exact trivial
  | skipped | resynced | badLength | complete => cases hn

namespace Session
variable {limits : Limits} {s : Session}

/-- Any octet state the framer holds has a count that is a word. -/
def Counted (limits : Limits) (s : Session) : Prop :=
  ∀ state, s.framer.octetDecoding = some state → state.Fits limits.wordSize

theorem Counted.enter (h : Counted limits s) (src : Bytes) {state : State}
    (he : (s.framer.enter src).octetDecoding = some state) : state.Fits limits.wordSize := by
  rcases Framer.enter_some he with hheld | ⟨rfl, -⟩
  · exact h state hheld
  · exact trivial

theorem Counted.step (h : Counted limits s) : Counted limits (s.step limits) := by
  intro state hstate
  rcases step_framer limits s with hkept | ⟨reply, left, hcall⟩
  · rw [hkept] at hstate
    exact h state hstate
  · generalize (s.step limits).framer = framer at hstate hcall
    cases called_of_call hcall with
    | octet mode step =>
      cases hstate
      exact octetStep_fits step (h.enter _ mode)
    | line mode going step => exact h state hstate
    | lastLine mode ended step => exact h state hstate

theorem run_counted (limits : Limits) (chunks : List Bytes) (n : ℕ) :
    Counted limits ((Session.step limits)^[n] (start chunks)) := by
  refine iterate_invariant (Counted limits) (fun _ (_ : True) => Counted.step)
    (fun _ => trivial) ?_ n
  intro state hstate
  cases hstate

end Session

/-- In every state a stream can bring the framer to, a build without overflow checks makes the
call the model makes. -/
theorem octetDecode_wrapping (limits : Limits) (chunks : List Bytes) (n : ℕ) (src : Bytes)
    (hsrc : src.length < 2 ^ limits.wordSize) (state : State)
    (hstate : (((Session.step limits)^[n] (.start chunks)).framer.enter src).octetDecoding =
      some state) (framer : Framer) :
    Framer.octetDecodeWith (.wrapping limits.wordSize) limits framer state src =
      some (Framer.octetDecode limits framer state src) := by
  have hfits := (Session.run_counted limits chunks n).enter src hstate
  exact (wrapping_faithful hfits hsrc).octetDecode framer

/-- In every state a stream can bring the framer to and on every buffer, a call of `octet_decode`
keeps all its sums and differences within the word unless it reads a header that overflows. -/
theorem octetDecode_arithmetic (limits : Limits) (chunks : List Bytes) (n : ℕ) (src : Bytes)
    (hsrc : src.length < 2 ^ limits.wordSize) (state : State)
    (hstate : (((Session.step limits)^[n] (.start chunks)).framer.enter src).octetDecoding =
      some state) :
    (Framer.octetDecodeWith (.checked limits.wordSize) limits
        (((Session.step limits)^[n] (.start chunks)).framer.enter src) state src).isSome = true ↔
      ¬ HeaderOverflows limits state src :=
  octetDecode_checked ((Session.run_counted limits chunks n).enter src hstate) hsrc _

theorem octetDecode_arithmetic_header :
    (Framer.octetDecodeWith (.checked 64) ⟨64, 32, by decide⟩ ⟨.new, some .notDiscarding⟩
      .notDiscarding [53, 32, 97]).isSome = true :=
  (octetDecode_arithmetic ⟨64, 32, by decide⟩ [] 0 [53, 32, 97] (by decide) .notDiscarding
    (by decide)).mpr (by decide)

/-- The greatest word for a length: the frame would end beyond every word. -/
theorem octetDecode_arithmetic_overflow :
    let header : Bytes := [49, 56, 52, 52, 54, 55, 52, 52, 48, 55, 51, 55, 48, 57, 53, 53, 49,
      54, 49, 53, 32]
    let s := (Session.step ⟨64, 32, by decide⟩)^[1] (.start [header])
    s.buffer = header ∧
      (s.framer.enter s.buffer).octetDecoding = some .notDiscarding ∧
      Framer.octetDecodeWith (.checked 64) ⟨64, 32, by decide⟩ (s.framer.enter s.buffer)
        .notDiscarding s.buffer = none := by
  decide +kernel

end HyperRuby.Framing
