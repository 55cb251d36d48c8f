import Mathlib.Data.List.Basic

/-! # First occurrences in a list

A successful search splits the list at the found element. Search results
are stable under extension on the right, which is what lets a decoder look
again at a longer buffer.
-/
namespace HyperRuby.Library

variable {α : Type*}

section Split

theorem take_split {a : α} {p : List α} {n : ℕ} (h : p.length < n) (r : List α) :
    ∃ r', (p ++ a :: r).take n = p ++ a :: r' := by
  obtain ⟨k, hk⟩ : ∃ k, n - p.length = k + 1 := ⟨n - p.length - 1, by omega⟩
  refine ⟨r.take k, ?_⟩
  rw [List.take_append, List.take_of_length_le (Nat.le_of_lt h), hk, List.take_succ_cons]

theorem drop_split (a : α) (p r : List α) : (p ++ a :: r).drop (p.length + 1) = r := by
  rw [← List.drop_drop, List.drop_left, List.drop_one, List.tail_cons]

theorem not_mem_of_take_drop {a : α} {l : List α} {n : ℕ} (htake : a ∉ l.take n)
    (hdrop : a ∉ l.drop n) : a ∉ l := by
  rw [← List.take_append_drop n l, List.mem_append]
  exact not_or.mpr ⟨htake, hdrop⟩

theorem split_cut {a : α} {u v p r : List α} (h : u ++ v = p ++ a :: r) :
    (∃ t, u = p ++ a :: t ∧ r = t ++ v) ∨ ∃ t, p = u ++ t ∧ v = t ++ a :: r := by
  rcases List.append_eq_append_iff.mp h with ⟨t, hp, hv⟩ | ⟨t, hu, hr⟩
  · exact .inr ⟨t, hp, hv⟩
  · cases t with
    | nil => exact .inr ⟨[], by simpa using hu.symm, by simpa using hr.symm⟩
    | cons b t =>
      rcases List.cons.inj hr with ⟨rfl, rfl⟩
      exact .inl ⟨t, hu, rfl⟩

/-- A list splits in only one way at the first place of an element. -/
theorem split_unique {a : α} {p p' r r' : List α} (h : p ++ a :: r = p' ++ a :: r') (hp : a ∉ p)
    (hp' : a ∉ p') : p = p' ∧ r = r' := by
  rcases split_cut h with ⟨t, rfl, -⟩ | ⟨t, rfl, ht⟩
  · simp at hp
  · cases t with
    | nil => exact ⟨by simp, (List.cons.inj ht).2⟩
    | cons b t =>
      obtain ⟨rfl, -⟩ := List.cons.inj ht
      simp at hp'

end Split

variable [BEq α] [LawfulBEq α]

theorem idxOf?_eq_some_split {a : α} {l : List α} {n : ℕ} :
    l.idxOf? a = some n ↔ ∃ p r, l = p ++ a :: r ∧ a ∉ p ∧ p.length = n := by
  induction l generalizing n with
  | nil => simp
  | cons x l ih =>
    rw [List.idxOf?_cons]
    by_cases hx : x = a
    · subst x
      simp only [beq_self_eq_true, if_true, Option.some.injEq]
      constructor
      · rintro rfl
        exact ⟨[], l, rfl, by simp, rfl⟩
      · rintro ⟨p, r, he, hp, rfl⟩
        cases p with
        | nil => rfl
        | cons y p =>
          obtain ⟨rfl, -⟩ := List.cons.inj he
          simp at hp
    · have hb : (x == a) = false := beq_false_of_ne hx
      simp only [hb, Bool.false_eq_true, if_false, Option.map_eq_some_iff]
      constructor
      · rintro ⟨m, hm, rfl⟩
        obtain ⟨p, r, rfl, hp, rfl⟩ := ih.mp hm
        exact ⟨x :: p, r, rfl, by simp [hp, Ne.symm hx], rfl⟩
      · rintro ⟨p, r, he, hp, rfl⟩
        cases p with
        | nil => exact absurd (List.cons.inj he).1 hx
        | cons y p =>
          obtain ⟨rfl, rfl⟩ := List.cons.inj he
          exact ⟨p.length, ih.mpr ⟨p, r, rfl, fun h => hp (List.mem_cons_of_mem _ h), rfl⟩, rfl⟩

theorem idxOf?_split {a : α} {p r : List α} (hp : a ∉ p) :
    (p ++ a :: r).idxOf? a = some p.length :=
  idxOf?_eq_some_split.mpr ⟨p, r, rfl, hp, rfl⟩

theorem idxOf?_lt_length {a : α} {l : List α} {n : ℕ} (h : l.idxOf? a = some n) :
    n < l.length := by
  obtain ⟨p, r, rfl, -, rfl⟩ := idxOf?_eq_some_split.mp h
  simp

theorem idxOf?_append_left {a : α} {l : List α} {n : ℕ} (h : l.idxOf? a = some n)
    (m : List α) : (l ++ m).idxOf? a = some n := by
  obtain ⟨p, r, rfl, hp, rfl⟩ := idxOf?_eq_some_split.mp h
  rw [List.append_assoc, List.cons_append]
  exact idxOf?_split hp

theorem idxOf?_append_right {a : α} {l : List α} (h : a ∉ l) (m : List α) :
    (l ++ m).idxOf? a = (m.idxOf? a).map (l.length + ·) := by
  cases hm : m.idxOf? a with
  | none =>
    rw [List.idxOf?_eq_none_iff] at hm
    simp [h, hm]
  | some n =>
    obtain ⟨p, r, rfl, hp, rfl⟩ := idxOf?_eq_some_split.mp hm
    rw [← List.append_assoc, idxOf?_split (by simp [h, hp])]
    simp

end HyperRuby.Library
