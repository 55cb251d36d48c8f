import HyperRuby.Library.Run

/-! # What a machine emits

An observer `next` gives the next output of a state and the state behind it.
The list of outputs up to the first state with none is unique, so two machines
that follow the same observer from the same state emit the same list, however
many silent steps each of them takes.
-/
namespace HyperRuby.Library

variable {σ ε τ : Type*} {next : σ → Option (ε × σ)}

/-- The outputs from a state up to the first state that gives none. -/
inductive Emits (next : σ → Option (ε × σ)) : σ → List ε → Prop where
  | done {s : σ} (h : next s = none) : Emits next s []
  | emit {s t : σ} {e : ε} {l : List ε} (h : next s = some (e, t)) (rest : Emits next t l) :
      Emits next s (e :: l)

theorem Emits.unique {s : σ} {l l' : List ε} (h : Emits next s l) (h' : Emits next s l') :
    l = l' := by
  induction h generalizing l' with
  | done hs =>
    cases h' with
    | done => rfl
    | emit ht => rw [hs] at ht; cases ht
  | emit hs _ ih =>
    cases h' with
    | done hn => rw [hs] at hn; cases hn
    | emit ht rest =>
      rw [hs] at ht
      cases ht
      rw [ih rest]

theorem Emits.congr {s t : σ} {l : List ε} (he : next s = next t) (h : Emits next s l) :
    Emits next t l := by
  cases h with
  | done hs => exact .done (he ▸ hs)
  | emit hs rest => exact .emit (he ▸ hs) rest

/-- One step of a machine follows the observer: it is silent and leaves the next output
alone, or it adds that output and moves on with the observer. -/
def Follows (next : σ → Option (ε × σ)) (abs : τ → σ) (out : τ → List ε) (t t' : τ) : Prop :=
  (out t' = out t ∧ next (abs t') = next (abs t)) ∨
    ∃ e, out t' = out t ++ [e] ∧ next (abs t) = some (e, abs t')

/-- A run that follows the observer to a state with no output has added what the observer
emits. -/
theorem emits_of_follows {abs : τ → σ} (out : τ → List ε) {step : τ → τ} {t : τ} {n : ℕ}
    (hstep : ∀ m < n, Follows next abs out (step^[m] t) (step^[m + 1] t))
    (hdone : next (abs (step^[n] t)) = none) :
    ∃ l, Emits next (abs t) l ∧ out (step^[n] t) = out t ++ l := by
  induction n generalizing t with
  | zero => exact ⟨[], .done hdone, by simp⟩
  | succ n ih =>
    have hhead : Follows next abs out t (step t) := hstep 0 (by omega)
    have htail : ∀ m < n, Follows next abs out (step^[m] (step t)) (step^[m + 1] (step t)) :=
      fun m hm => hstep (m + 1) (by omega)
    rcases ih htail hdone with ⟨l, hl, ho⟩
    rw [Function.iterate_succ_apply]
    rcases hhead with ⟨hout, hnext⟩ | ⟨e, hout, hnext⟩
    · exact ⟨l, hl.congr hnext, by rw [ho, hout]⟩
    · exact ⟨e :: l, .emit hnext hl, by rw [ho, hout, List.append_assoc, List.singleton_append]⟩

end HyperRuby.Library
