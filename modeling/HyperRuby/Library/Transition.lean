import Mathlib.Algebra.BigOperators.Group.List.Basic
import Mathlib.Algebra.Order.Group.Multiset
import Mathlib.Algebra.Ring.Nat
import Mathlib.Data.List.Induction

/-! # Transition systems with labelled steps

A step takes an action and may be impossible. A state is reached when a
sequence of possible steps leads to it, every one of them meeting a condition
on the state it starts in. Components that live side by side in a list are
tallied by adding up what each of them holds.
-/
namespace HyperRuby.Library

variable {σ α : Type*}

/-- The states reached from `init` by steps that all meet `allowed`. -/
inductive Reached (step : σ → α → Option σ) (allowed : σ → α → Prop) (init : σ) : σ → Prop where
  | start : Reached step allowed init init
  | step {s t : σ} {a : α} (h : Reached step allowed init s) (ok : allowed s a)
      (he : step s a = some t) : Reached step allowed init t

variable {step : σ → α → Option σ} {allowed : σ → α → Prop} {init : σ}

/-- What holds at the start and is kept by every allowed step holds in every state reached;
a step may rest on what is already known of all states reached. -/
theorem Reached.invariant (inv : σ → Prop) (h0 : inv init)
    (hstep : ∀ s a t, Reached step allowed init s → allowed s a → inv s → step s a = some t → inv t)
    {s : σ} (h : Reached step allowed init s) : inv s := by
  induction h with
  | start => exact h0
  | step hs ok he ih => exact hstep _ _ _ hs ok ih he

theorem Reached.trans {s t : σ} (h : Reached step allowed init s) (h' : Reached step allowed s t) :
    Reached step allowed init t := by
  induction h' with
  | start => exact h
  | step _ ok he ih => exact .step ih ok he

/-- Where every step shows in a view as a run of the system viewed, every run does. -/
theorem Reached.view {τ β : Type*} {step' : τ → β → Option τ} {allowed' : τ → β → Prop}
    (view : σ → τ)
    (hstep : ∀ s a t, step s a = some t → Reached step' allowed' (view s) (view t))
    {s : σ} (h : Reached step allowed init s) : Reached step' allowed' (view init) (view s) := by
  induction h with
  | start => exact .start
  | step _ _ he ih => exact ih.trans (hstep _ _ _ he)

/-- Run a list of actions, as long as each is possible and allowed. -/
def run (step : σ → α → Option σ) (allowed : σ → α → Prop) [∀ s a, Decidable (allowed s a)] :
    σ → List α → Option σ
  | s, [] => some s
  | s, a :: rest => if allowed s a then (step s a).bind (fun t => run step allowed t rest) else none

theorem Reached.of_run [∀ s a, Decidable (allowed s a)] {s t : σ} {actions : List α}
    (h : Reached step allowed init s) (hr : run step allowed s actions = some t) :
    Reached step allowed init t := by
  induction actions generalizing s with
  | nil =>
    cases hr
    exact h
  | cons a actions ih =>
    rw [run] at hr
    split_ifs at hr with ok
    rcases Option.bind_eq_some_iff.mp hr with ⟨u, hu, hrest⟩
    exact ih (.step h ok hu) hrest

theorem exists_run [∀ s a, Decidable (allowed s a)] (actions : List α) {p : σ → Prop}
    [DecidablePred p] (h : (run step allowed init actions).any (fun s => p s) = true) :
    ∃ s, run step allowed init actions = some s ∧ p s := by
  rcases Option.any_eq_true_iff_get _ _ |>.mp h with ⟨hs, hp⟩
  exact ⟨_, (Option.some_get hs).symm, by simpa using hp⟩

theorem exists_reached [∀ s a, Decidable (allowed s a)] (actions : List α) {p : σ → Prop}
    [DecidablePred p] (h : (run step allowed init actions).any (fun s => p s) = true) :
    ∃ s, Reached step allowed init s ∧ p s := by
  rcases exists_run actions h with ⟨s, hs, hp⟩
  exact ⟨s, .of_run .start hs, hp⟩

theorem run_append [∀ s a, Decidable (allowed s a)] {s : σ} {actions more : List α} :
    run step allowed s (actions ++ more) =
      (run step allowed s actions).bind (fun t => run step allowed t more) := by
  induction actions generalizing s with
  | nil => rfl
  | cons b actions ih =>
    rw [List.cons_append, run, run]
    split_ifs with ok
    · cases hb : step s b with
      | none => rfl
      | some u => exact ih
    · rfl

theorem run_concat [∀ s a, Decidable (allowed s a)] {s : σ} {actions : List α} {a : α} :
    run step allowed s (actions ++ [a]) =
      (run step allowed s actions).bind (fun t => if allowed t a then step t a else none) := by
  simp [run_append, run]

/-- An invariant of states together with the actions that led to them. -/
theorem run_history [∀ s a, Decidable (allowed s a)] (inv : List α → σ → Prop) {s : σ}
    (h0 : inv [] s)
    (hstep : ∀ actions t a u, run step allowed s actions = some t → allowed t a →
      inv actions t → step t a = some u → inv (actions ++ [a]) u)
    {actions : List α} {t : σ} (h : run step allowed s actions = some t) : inv actions t := by
  induction actions using List.reverseRecOn generalizing t with
  | nil =>
    cases h
    exact h0
  | append_singleton actions a ih =>
    rw [run_concat] at h
    rcases Option.bind_eq_some_iff.mp h with ⟨u, hu, ht⟩
    split_ifs at ht with ok
    exact hstep actions u a t hu ok (ih hu) ht

def Stepped (step : σ → α → Option σ) (allowed : σ → α → Prop) [∀ s a, Decidable (allowed s a)]
    (init : σ) (actions : List α) (s : σ) (a : α) : Prop :=
  ∃ before, before ++ [a] <+: actions ∧ run step allowed init before = some s

theorem not_stepped_nil [∀ s a, Decidable (allowed s a)] (s : σ) (a : α) :
    ¬ Stepped step allowed init [] s a := by
  rintro ⟨before, hprefix, -⟩
  simp at hprefix

theorem stepped_concat [∀ s a, Decidable (allowed s a)] {actions : List α} {s t : σ} {a b : α}
    (h : run step allowed init actions = some t) :
    Stepped step allowed init (actions ++ [a]) s b ↔
      Stepped step allowed init actions s b ∨ (s = t ∧ b = a) := by
  constructor
  · rintro ⟨before, hprefix, hrun⟩
    rcases List.prefix_concat_iff.mp hprefix with hlast | hprefix
    · obtain ⟨rfl, hab⟩ := List.append_inj' hlast rfl
      rw [h] at hrun
      exact .inr ⟨(Option.some.inj hrun).symm, List.singleton_inj.mp hab⟩
    · exact .inl ⟨before, hprefix, hrun⟩
  · rintro (⟨before, hprefix, hrun⟩ | ⟨rfl, rfl⟩)
    · exact ⟨before, hprefix.trans (List.prefix_append _ _), hrun⟩
    · exact ⟨actions, List.prefix_rfl, h⟩

/-- The sum of what the steps of a run weigh. -/
def runTally (step : σ → α → Option σ) (weight : σ → α → ℕ) : σ → List α → ℕ
  | _, [] => 0
  | s, a :: rest => weight s a + ((step s a).map (fun t => runTally step weight t rest)).getD 0

theorem run_tally [∀ s a, Decidable (allowed s a)] {weight : σ → α → ℕ} (measure : σ → ℕ)
    (hstep : ∀ s a t, step s a = some t → measure t = measure s + weight s a) {s t : σ}
    {actions : List α} (h : run step allowed s actions = some t) :
    measure t = measure s + runTally step weight s actions := by
  induction actions generalizing s with
  | nil =>
    cases h
    rfl
  | cons a actions ih =>
    rw [run] at h
    split_ifs at h
    rcases Option.bind_eq_some_iff.mp h with ⟨u, hu, hrest⟩
    rw [ih hrest, hstep s a u hu, runTally, hu, Nat.add_assoc]
    rfl

/-- Where every step under an invariant appends what its action brings to a list, a run appends
what all its actions bring. -/
theorem run_collect {β : Type*} [∀ s a, Decidable (allowed s a)] (inv : σ → Prop)
    (measure : σ → List β) (brings : α → List β)
    (hstep : ∀ s a t, inv s → allowed s a → step s a = some t →
      inv t ∧ measure t = measure s ++ brings a)
    {s t : σ} {actions : List α} (h : inv s) (hr : run step allowed s actions = some t) :
    inv t ∧ measure t = measure s ++ actions.flatMap brings := by
  induction actions generalizing s with
  | nil =>
    cases hr
    exact ⟨h, by simp⟩
  | cons a actions ih =>
    rw [run] at hr
    split_ifs at hr with ok
    rcases Option.bind_eq_some_iff.mp hr with ⟨u, hu, hrest⟩
    obtain ⟨hinv, hmeasure⟩ := hstep s a u h ok hu
    obtain ⟨hinv', hmeasure'⟩ := ih hinv hrest
    refine ⟨hinv', ?_⟩
    rw [hmeasure', hmeasure, List.append_assoc, List.flatMap_cons]

theorem forall_mem_set {τ : Type*} {p : τ → Prop} {l : List τ} {i : ℕ} {y : τ}
    (h : ∀ x ∈ l, p x) (hy : p y) : ∀ x ∈ l.set i y, p x := by
  intro x hx
  rcases List.mem_or_eq_of_mem_set hx with hold | rfl
  · exact h x hold
  · exact hy

theorem forall_get_set {τ : Type*} {p : ℕ → τ → Prop} {l : List τ} {i : ℕ} {y : τ}
    (h : ∀ j x, l[j]? = some x → p j x) (hy : p i y) :
    ∀ j x, (l.set i y)[j]? = some x → p j x := by
  intro j x hx
  rw [List.getElem?_set] at hx
  split_ifs at hx with hij hlt
  · cases hx
    exact hij ▸ hy
  · exact h j x hx

theorem forall_get_modify {τ : Type*} {p : ℕ → τ → Prop} {l : List τ} {i : ℕ} {f : τ → τ}
    (h : ∀ j x, l[j]? = some x → p j x) (hf : ∀ x, l[i]? = some x → p i (f x)) :
    ∀ j x, (l.modify i f)[j]? = some x → p j x := by
  intro j x hx
  rw [List.getElem?_modify] at hx
  rcases Option.map_eq_some_iff.mp hx with ⟨y, hy, rfl⟩
  split_ifs with hij
  · subst hij
    exact hf y hy
  · exact h j y hy

theorem forall_get_append {τ : Type*} {p : ℕ → τ → Prop} {l : List τ} {y : τ}
    (h : ∀ j x, l[j]? = some x → p j x) (hy : p l.length y) :
    ∀ j x, (l ++ [y])[j]? = some x → p j x := by
  intro j x hx
  rw [List.getElem?_append] at hx
  split_ifs at hx with hlt
  · exact h j x hx
  · obtain ⟨hj, rfl⟩ : j - l.length = 0 ∧ y = x := by
      simpa [List.getElem?_singleton] using hx
    obtain rfl : j = l.length := by omega
    exact hy

theorem map_set_of_eq {τ υ : Type*} {f : τ → υ} {l : List τ} {i : ℕ} {x y : τ}
    (h : l[i]? = some x) (hf : f y = f x) : (l.set i y).map f = l.map f := by
  induction l generalizing i with
  | nil => rfl
  | cons z l ih =>
    cases i with
    | zero =>
      obtain rfl : z = x := by simpa using h
      rw [List.set_cons_zero, List.map_cons, List.map_cons, hf]
    | succ i => rw [List.set_cons_succ, List.map_cons, List.map_cons, ih (by simpa using h)]

section Kept
variable {τ υ : Type*} {f : τ → Option υ} {l : List τ} {i : ℕ} {x y : τ} {a b : υ}

/-- Where the component at a place stands among those that a view keeps. -/
def rank (f : τ → Option υ) (l : List τ) (i : ℕ) : ℕ := ((l.take i).filterMap f).length

theorem exists_around (h : l[i]? = some x) (f : τ → Option υ) (y : τ) :
    ∃ before after, l = before ++ x :: after ∧ l.set i y = before ++ y :: after ∧
      rank f l i = (before.filterMap f).length := by
  obtain ⟨hi, hx⟩ := List.getElem?_eq_some_iff.mp h
  obtain ⟨before, after, hl, rfl, hset⟩ :
      ∃ before after, l = before ++ l[i] :: after ∧ before.length = i ∧
        l.set i y = before ++ y :: after := List.exists_of_set hi
  rw [hx] at hl
  refine ⟨before, after, hl, hset, ?_⟩
  rw [rank, hl, List.take_left]

theorem get_rank (h : l[i]? = some x) (hx : f x = some a) :
    (l.filterMap f)[rank f l i]? = some a := by
  obtain ⟨before, after, rfl, -, hrank⟩ := exists_around h f x
  simp [hrank, hx]

theorem filterMap_set (h : l[i]? = some x) (hx : f x = some a) (hy : f y = some b) :
    (l.set i y).filterMap f = (l.filterMap f).set (rank f l i) b := by
  obtain ⟨before, after, rfl, hset, hrank⟩ := exists_around h f y
  simp [hset, hrank, hx, hy]

/-- A kept component replaced by one that is not. -/
theorem filterMap_unset (h : l[i]? = some x) (hx : f x = some a) (hy : f y = none) :
    (l.set i y).filterMap f = (l.filterMap f).eraseIdx (rank f l i) := by
  obtain ⟨before, after, rfl, hset, hrank⟩ := exists_around h f y
  simp [hset, hrank, hx, hy, List.eraseIdx_append_of_length_le]

theorem filterMap_set_of_eq (h : l[i]? = some x) (hf : f y = f x) :
    (l.set i y).filterMap f = l.filterMap f := by
  obtain ⟨before, after, rfl, hset, -⟩ := exists_around h f y
  simp [hset, List.filterMap_cons, hf]

end Kept

section Tally
variable {τ M : Type*} [AddCommMonoid M]

theorem tally_set (f : τ → M) {l : List τ} {i : ℕ} {x : τ} (h : l[i]? = some x) (y : τ) :
    ∃ rest, (l.map f).sum = f x + rest ∧ ((l.set i y).map f).sum = f y + rest := by
  induction l generalizing i with
  | nil => simp at h
  | cons z l ih =>
    cases i with
    | zero =>
      obtain rfl : z = x := by simpa using h
      exact ⟨(l.map f).sum, by simp, by simp⟩
    | succ i =>
      rcases ih (by simpa using h) with ⟨rest, h1, h2⟩
      refine ⟨f z + rest, ?_, ?_⟩
      · rw [List.map_cons, List.sum_cons, h1, add_left_comm]
      · rw [List.set_cons_succ, List.map_cons, List.sum_cons, h2, add_left_comm]

theorem tally_eraseIdx (f : τ → M) {l : List τ} {i : ℕ} {x : τ} (h : l[i]? = some x) :
    (l.map f).sum = f x + ((l.eraseIdx i).map f).sum := by
  induction l generalizing i with
  | nil => simp at h
  | cons z l ih =>
    cases i with
    | zero =>
      obtain rfl : z = x := by simpa using h
      simp
    | succ i =>
      rw [List.map_cons, List.sum_cons, ih (by simpa using h), List.eraseIdx_cons_succ,
        List.map_cons, List.sum_cons, add_left_comm]

/-- An additive measure of a tally is the tally of the measures. -/
theorem tally_measure {N : Type*} [AddCommMonoid N] (measure : M → N) (hzero : measure 0 = 0)
    (hadd : ∀ a b, measure (a + b) = measure a + measure b) (f : τ → M) (l : List τ) :
    measure (l.map f).sum = (l.map (fun x => measure (f x))).sum := by
  induction l with
  | nil => exact hzero
  | cons x l ih => rw [List.map_cons, List.sum_cons, hadd, ih, List.map_cons, List.sum_cons]

theorem tally_le_mul (f : τ → ℕ) {l : List τ} {n b : ℕ} (hlength : l.length ≤ n)
    (hle : ∀ x ∈ l, f x ≤ b) : (l.map f).sum ≤ n * b := by
  have hsum : (l.map f).sum ≤ l.length * b := by
    induction l with
    | nil => exact Nat.zero_le _
    | cons x l ih =>
      have hx := hle x List.mem_cons_self
      have hl := ih (by simp at hlength; omega) fun y hy => hle y (List.mem_cons_of_mem x hy)
      rw [List.map_cons, List.sum_cons, List.length_cons, Nat.succ_mul]
      omega
  exact hsum.trans (Nat.mul_le_mul_right b hlength)

theorem length_filter_le_tally (f : τ → ℕ) (l : List τ) :
    (l.filter (fun x => f x = 1)).length ≤ (l.map f).sum := by
  induction l with
  | nil => exact le_rfl
  | cons x l ih =>
    by_cases hx : f x = 1
    · simp [hx]
      omega
    · simp [hx]
      omega

theorem mem_tally {ι : Type*} {f : τ → Multiset ι} {l : List τ} {a : ι} :
    a ∈ (l.map f).sum ↔ ∃ x ∈ l, a ∈ f x := by
  induction l with
  | nil => simp
  | cons x l ih => simp [ih]

end Tally
end HyperRuby.Library
