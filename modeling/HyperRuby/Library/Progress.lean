import HyperRuby.Library.Transition

/-! # Runs that come to rest

A measure that every allowed step lowers bounds the length of all runs, so that
every run can be continued to a state in which no allowed step is possible.
What such a state looks like is for the system to say.
-/
namespace HyperRuby.Library

variable {σ α : Type*} {step : σ → α → Option σ} {allowed : σ → α → Prop}

def Rests (step : σ → α → Option σ) (allowed : σ → α → Prop) (s : σ) : Prop :=
  ∀ a, allowed s a → step s a = none

section Measure
variable [∀ s a, Decidable (allowed s a)] (inv : σ → Prop) (left : σ → ℕ)

/-- Where no step adds to a measure and certain steps lower it, a run has at most as many of them
as the measure falls by. -/
theorem run_countP_le (counts : α → Bool)
    (hstep : ∀ s a t, inv s → allowed s a → step s a = some t →
      inv t ∧ (if counts a then 1 else 0) + left t ≤ left s)
    {s t : σ} {actions : List α} (h : run step allowed s actions = some t) (hs : inv s) :
    inv t ∧ actions.countP counts + left t ≤ left s := by
  induction actions generalizing s with
  | nil =>
    cases h
    exact ⟨hs, by simp⟩
  | cons a actions ih =>
    simp only [run] at h
    split_ifs at h with hallowed
    rcases Option.bind_eq_some_iff.mp h with ⟨u, hu, hrun⟩
    rcases hstep s a u hs hallowed hu with ⟨hinv, hlt⟩
    rcases ih hrun hinv with ⟨ht, hle⟩
    refine ⟨ht, ?_⟩
    rw [List.countP_cons]
    omega

/-- Where a goal that is not met can be brought nearer, some run meets it. -/
theorem exists_goal (goal : σ → Prop)
    (hprogress : ∀ s, inv s → ¬ goal s → ∃ actions t,
      run step allowed s actions = some t ∧ inv t ∧ left t < left s)
    {s : σ} (hs : inv s) :
    ∃ actions t, run step allowed s actions = some t ∧ inv t ∧ goal t := by
  induction hn : left s using Nat.strong_induction_on generalizing s with
  | _ n ih =>
    by_cases hgoal : goal s
    · exact ⟨[], s, rfl, hs, hgoal⟩
    · rcases hprogress s hs hgoal with ⟨actions, u, hrun, hu, hlt⟩
      rcases ih (left u) (hn ▸ hlt) hu rfl with ⟨more, t, hmore, ht⟩
      exact ⟨actions ++ more, t, by rw [run_append, hrun]; exact hmore, ht⟩

/-- From every state some run comes to rest, where every step lowers a measure. -/
theorem exists_rests
    (hstep : ∀ s a t, inv s → allowed s a → step s a = some t → inv t ∧ left t < left s)
    {s : σ} (hs : inv s) :
    ∃ actions t, run step allowed s actions = some t ∧ inv t ∧ Rests step allowed t := by
  refine exists_goal inv left (Rests step allowed) ?_ hs
  intro s hs hmoves
  unfold Rests at hmoves
  push Not at hmoves
  rcases hmoves with ⟨a, hallowed, hsome⟩
  rcases Option.ne_none_iff_exists'.mp hsome with ⟨t, ht⟩
  refine ⟨[a], t, ?_, hstep s a t hs hallowed ht⟩
  rw [run, if_pos hallowed, ht]
  rfl

end Measure
end HyperRuby.Library
