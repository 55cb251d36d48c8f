import Mathlib.Tactic.Common

/-! # Computations that may fail halfway

A computation over a state that may end with an error. The state keeps what was done before
the error, so what holds between the state before and the state after is asked of both
outcomes.
-/
namespace HyperRuby.Library

abbrev Fallible (σ ε : Type) := ExceptT ε (StateM σ)

variable {σ ε δ α β : Type}

namespace Fallible

def outcome (x : Fallible σ ε α) (s : σ) : Except ε α := (x.run.run s).1

def after (x : Fallible σ ε α) (s : σ) : σ := (x.run.run s).2

/-- A step that an injected fault makes fail. -/
def attempt (fault : Option String) (error : String → ε) : Fallible σ ε Unit :=
  match fault with
  | none => pure ()
  | some reason => throw (error reason)

def undoing (x : Fallible σ ε α) (undo : σ → σ) (wrap : ε → δ) : Fallible σ δ α :=
  ExceptT.mk do
    match ← x.run with
    | .ok a => return .ok a
    | .error e =>
      modify undo
      return .error (wrap e)

/-- Whether it succeeds does not depend on the state. -/
def Decided (x : Fallible σ ε α) (b : Bool) : Prop := ∀ s, (x.outcome s).isOk = b

/-- What holds before holds after, whatever the outcome. -/
def Keeps (P : σ → Prop) (x : Fallible σ ε α) : Prop := ∀ s, P s → P (x.after s)

theorem run_bind (x : Fallible σ ε α) (f : α → Fallible σ ε β) (s : σ) :
    (x >>= f).run.run s =
      match x.outcome s with
      | .ok a => (f a).run.run (x.after s)
      | .error e => (.error e, x.after s) := by
  have h : (x >>= f).run.run s = (match x.outcome s with
      | .ok a => (f a).run
      | .error e => pure (.error e) : StateM σ (Except ε β)).run (x.after s) := rfl
  rw [h]
  cases x.outcome s with
  | ok a => rfl
  | error e => rfl

theorem outcome_bind (x : Fallible σ ε α) (f : α → Fallible σ ε β) (s : σ) :
    (x >>= f).outcome s =
      match x.outcome s with
      | .ok a => (f a).outcome (x.after s)
      | .error e => .error e := by
  unfold outcome
  rw [run_bind, outcome]
  cases (x.run.run s).1 with
  | ok a => rfl
  | error e => rfl

theorem after_bind (x : Fallible σ ε α) (f : α → Fallible σ ε β) (s : σ) :
    (x >>= f).after s =
      match x.outcome s with
      | .ok a => (f a).after (x.after s)
      | .error _ => x.after s := by
  rw [after, run_bind]
  cases x.outcome s with
  | ok a => rfl
  | error e => rfl

theorem run_undoing (x : Fallible σ ε α) (undo : σ → σ) (wrap : ε → δ) (s : σ) :
    (x.undoing undo wrap).run.run s =
      match x.outcome s with
      | .ok a => (.ok a, x.after s)
      | .error e => (.error (wrap e), undo (x.after s)) := by
  have h : (x.undoing undo wrap).run.run s = (match x.outcome s with
      | .ok a => pure (.ok a)
      | .error e => do
        modify undo
        pure (.error (wrap e)) : StateM σ (Except δ α)).run (x.after s) := rfl
  rw [h]
  cases x.outcome s with
  | ok a => rfl
  | error e => rfl

theorem outcome_undoing (x : Fallible σ ε α) (undo : σ → σ) (wrap : ε → δ) (s : σ) :
    (x.undoing undo wrap).outcome s = (x.outcome s).mapError wrap := by
  rw [outcome, run_undoing]
  cases x.outcome s with
  | ok a => rfl
  | error e => rfl

theorem after_undoing (x : Fallible σ ε α) (undo : σ → σ) (wrap : ε → δ) (s : σ) :
    (x.undoing undo wrap).after s =
      match x.outcome s with
      | .ok _ => x.after s
      | .error _ => undo (x.after s) := by
  rw [after, run_undoing]
  cases x.outcome s with
  | ok a => rfl
  | error e => rfl

theorem decided_pure (a : α) : Decided (pure a : Fallible σ ε α) true := fun _ => rfl

theorem decided_modify (f : σ → σ) : Decided (modify f : Fallible σ ε Unit) true := fun _ => rfl

theorem decided_attempt (fault : Option String) (error : String → ε) :
    Decided (attempt fault error : Fallible σ ε Unit) fault.isNone := by
  intro s
  cases fault with
  | none => rfl
  | some reason => rfl

theorem Decided.bind {x : Fallible σ ε α} {f : α → Fallible σ ε β} {b c : Bool}
    (hx : Decided x b) (hf : ∀ a, Decided (f a) c) : Decided (x >>= f) (b && c) := by
  intro s
  rw [outcome_bind, ← hx s]
  cases x.outcome s with
  | ok a => simpa [Except.isOk, Except.toBool] using hf a (x.after s)
  | error e => simp [Except.isOk, Except.toBool]

theorem Decided.undoing {x : Fallible σ ε α} {b : Bool} (hx : Decided x b) (undo : σ → σ)
    (wrap : ε → δ) : Decided (x.undoing undo wrap) b := by
  intro s
  rw [outcome_undoing, ← hx s]
  cases x.outcome s with
  | ok a => rfl
  | error e => rfl

theorem Decided.after_bind_false {x : Fallible σ ε α} (hx : Decided x false)
    (f : α → Fallible σ ε β) (s : σ) : (x >>= f).after s = x.after s := by
  have hs : (x.outcome s).isOk = false := hx s
  rw [after_bind]
  cases h : x.outcome s with
  | ok a => rw [h] at hs; cases hs
  | error e => rfl

theorem Decided.after_bind_true {x : Fallible σ ε α} (hx : Decided x true)
    (f : α → Fallible σ ε β) (s : σ) : ∃ a, (x >>= f).after s = (f a).after (x.after s) := by
  have hs : (x.outcome s).isOk = true := hx s
  rw [after_bind]
  cases h : x.outcome s with
  | ok a => exact ⟨a, rfl⟩
  | error e => rw [h] at hs; cases hs

section Keeps
variable {P : σ → Prop}

theorem keeps_pure (a : α) : Keeps P (pure a : Fallible σ ε α) := fun _ h => h

theorem keeps_throw (e : ε) : Keeps P (throw e : Fallible σ ε α) := fun _ h => h

theorem keeps_modify {f : σ → σ} (hf : ∀ s, P s → P (f s)) :
    Keeps P (modify f : Fallible σ ε Unit) := hf

theorem keeps_attempt (fault : Option String) (error : String → ε) :
    Keeps P (attempt fault error : Fallible σ ε Unit) := by
  cases fault with
  | none => exact keeps_pure ()
  | some reason => exact keeps_throw _

theorem Keeps.bind {x : Fallible σ ε α} {f : α → Fallible σ ε β} (hx : Keeps P x)
    (hf : ∀ a, Keeps P (f a)) : Keeps P (x >>= f) := by
  intro s h
  rw [after_bind]
  cases x.outcome s with
  | ok a => exact hf a (x.after s) (hx s h)
  | error e => exact hx s h

theorem Keeps.undoing {x : Fallible σ ε α} (hx : Keeps P x) {undo : σ → σ}
    (hundo : ∀ s, P s → P (undo s)) (wrap : ε → δ) : Keeps P (x.undoing undo wrap) := by
  intro s h
  rw [after_undoing]
  cases x.outcome s with
  | ok a => exact hx s h
  | error e => exact hundo _ (hx s h)

end Keeps
end Fallible

section Succeeds

/-- A computation without a state that gives a value. -/
def Succeeds (x : Except ε α) : Prop := ∃ a, x = .ok a

theorem succeeds_ok (a : α) : Succeeds (.ok a : Except ε α) := ⟨a, rfl⟩

theorem not_succeeds_error (e : ε) : ¬ Succeeds (.error e : Except ε α) := by
  rintro ⟨a, ha⟩
  cases ha

theorem ite_eq_ok {p : Prop} [Decidable p] {a b : α} {e : ε} :
    (if p then .ok a else .error e : Except ε α) = .ok b ↔ p ∧ a = b := by
  split_ifs with h <;> simp [h]

theorem bind_eq_ok {x : Except ε α} {f : α → Except ε β} {b : β} :
    (x >>= f) = .ok b ↔ ∃ a, x = .ok a ∧ f a = .ok b := by
  cases x with
  | ok a => exact ⟨fun h => ⟨a, rfl, h⟩, fun ⟨_, ha, h⟩ => by cases ha; exact h⟩
  | error e => exact ⟨fun h => (nomatch h), fun ⟨_, ha, _⟩ => by cases ha⟩

theorem succeeds_bind {x : Except ε α} {f : α → Except ε β} :
    Succeeds (x >>= f) ↔ ∃ a, x = .ok a ∧ Succeeds (f a) := by
  simp only [Succeeds, bind_eq_ok]
  exact ⟨fun ⟨b, a, ha, hb⟩ => ⟨a, ha, b, hb⟩, fun ⟨a, ha, b, hb⟩ => ⟨b, a, ha, hb⟩⟩

end Succeeds
end HyperRuby.Library
