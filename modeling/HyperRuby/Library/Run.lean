import Mathlib.Data.Nat.Find
import Mathlib.Logic.Function.Iterate
import Mathlib.Order.Lattice

/-! # Runs of a deterministic machine

A run is the iteration of one step function. A guard that holds in every state
reached carries an invariant along the run, and a measure that falls until the
machine rests bounds the length of the run.
-/
namespace HyperRuby.Library

variable {σ : Type*} {step : σ → σ}

/-- An invariant that guarded steps preserve holds along a run that meets the guard. -/
theorem iterate_invariant {guard : σ → Prop} (inv : σ → Prop) {s : σ}
    (hstep : ∀ t, guard t → inv t → inv (step t)) (hguard : ∀ n, guard (step^[n] s))
    (h : inv s) (n : ℕ) : inv (step^[n] s) := by
  induction n with
  | zero => exact h
  | succ n ih =>
    rw [Function.iterate_succ_apply']
    exact hstep _ (hguard n) ih

variable (rest : σ → Prop)

theorem iterate_rest (hfix : ∀ s, rest s → step s = s) {s : σ} (h : rest s) (n : ℕ) :
    step^[n] s = s := Function.iterate_fixed (hfix s h) n

theorem iterate_eq_of_rest (hfix : ∀ s, rest s → step s = s) {s : σ} {n m : ℕ}
    (h : rest (step^[n] s)) (hm : n ≤ m) : step^[m] s = step^[n] s := by
  obtain ⟨k, rfl⟩ := Nat.exists_eq_add_of_le hm
  rw [Nat.add_comm, Function.iterate_add_apply, iterate_rest rest hfix h]

/-- Any two numbers of steps after which the machine rests give the same state. -/
theorem rest_unique (hfix : ∀ s, rest s → step s = s) {s : σ} {n m : ℕ}
    (hn : rest (step^[n] s)) (hm : rest (step^[m] s)) : step^[n] s = step^[m] s := by
  rcases le_total n m with h | h
  · exact (iterate_eq_of_rest rest hfix hn h).symm
  · exact iterate_eq_of_rest rest hfix hm h

theorem forall_iterate_of_rest (hfix : ∀ s, rest s → step s = s) {P : σ → Prop} {s : σ} {n : ℕ}
    (hn : rest (step^[n] s)) (h : ∀ m ≤ n, P (step^[m] s)) (m : ℕ) : P (step^[m] s) := by
  rcases le_total m n with hm | hm
  · exact h m hm
  · rw [iterate_eq_of_rest rest hfix hn hm]
    exact h n le_rfl

/-- A measure that falls until the machine rests bounds the number of steps. -/
theorem rest_of_measure {measure : σ → ℕ} (hfix : ∀ s, rest s → step s = s)
    (hfall : ∀ s, ¬ rest s → measure (step s) < measure s) {s : σ} {n : ℕ}
    (hn : measure s ≤ n) : rest (step^[n] s) := by
  induction n generalizing s with
  | zero =>
    by_contra h
    have := hfall s h
    omega
  | succ n ih =>
    rw [Function.iterate_succ_apply]
    by_cases h : rest s
    · rw [hfix s h, iterate_rest rest hfix h]
      exact h
    · exact ih (by have := hfall s h; omega)

section Fall
variable (inv : σ → Prop) (measure : σ → ℕ) (stop : σ → Prop)

theorem iterate_fall
    (hfall : ∀ s, inv s → ¬ stop s → inv (step s) ∧ measure (step s) < measure s) {s : σ}
    (h : inv s) {n : ℕ} (hgoing : ∀ m < n, ¬ stop (step^[m] s)) :
    inv (step^[n] s) ∧ measure (step^[n] s) + n ≤ measure s := by
  induction n with
  | zero => exact ⟨h, le_rfl⟩
  | succ n ih =>
    obtain ⟨hinv, hle⟩ := ih (fun m hm => hgoing m (by omega))
    obtain ⟨hnext, hlt⟩ := hfall _ hinv (hgoing n (by omega))
    rw [Function.iterate_succ_apply']
    exact ⟨hnext, by omega⟩

/-- A measure that falls until the machine stops bounds the number of steps before it does. -/
theorem exists_stop_of_fall
    (hfall : ∀ s, inv s → ¬ stop s → inv (step s) ∧ measure (step s) < measure s) {s : σ}
    (h : inv s) :
    ∃ n ≤ measure s, stop (step^[n] s) ∧ ∀ m < n, ¬ stop (step^[m] s) := by
  classical
  have hstop : ∃ n, stop (step^[n] s) := by
    by_contra hnone
    have hgoing : ∀ m < measure s + 1, ¬ stop (step^[m] s) := fun m _ hm => hnone ⟨m, hm⟩
    have hle := (iterate_fall inv measure stop hfall h hgoing).2
    omega
  have hfirst : ∀ m < Nat.find hstop, ¬ stop (step^[m] s) := fun _ => Nat.find_min hstop
  have hle := (iterate_fall inv measure stop hfall h hfirst).2
  exact ⟨Nat.find hstop, by omega, Nat.find_spec hstop, hfirst⟩

end Fall

end HyperRuby.Library
