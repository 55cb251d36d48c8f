import Mathlib.Data.List.Induction

/-! # Hashes that overwrite

A hash is a list of entries with their keys in the order of first insertion. Looking a key up in a
list of pairs finds its first value; collecting the pairs into a hash keeps its last one.
-/
namespace HyperRuby.Library.Hash

variable {κ ν : Type*} [BEq κ] [LawfulBEq κ]

/-- Set the value of a key, in place if it has one. -/
def aset : List (κ × ν) → κ → ν → List (κ × ν)
  | [], k, v => [(k, v)]
  | (j, u) :: rest, k, v =>
    if j == k then (k, v) :: rest.filter (fun entry => entry.1 != k)
    else (j, u) :: aset rest k v

/-- Set the values of all pairs, in their order. -/
def collect (pairs : List (κ × ν)) : List (κ × ν) :=
  pairs.foldl (fun hash pair => aset hash pair.1 pair.2) []

/-- All values of a key, in their order. -/
def values (pairs : List (κ × ν)) (k : κ) : List ν :=
  pairs.filterMap (fun pair => if pair.1 == k then some pair.2 else none)

@[simp] theorem values_cons_self (k : κ) (v : ν) (pairs : List (κ × ν)) :
    values ((k, v) :: pairs) k = v :: values pairs k := by
  simp [values]

theorem values_cons_ne {j k : κ} (h : j ≠ k) (v : ν) (pairs : List (κ × ν)) :
    values ((j, v) :: pairs) k = values pairs k := by
  simp [values, h]

theorem lookup_filter_ne {j k : κ} (h : j ≠ k) (entries : List (κ × ν)) :
    (entries.filter (fun entry => entry.1 != k)).lookup j = entries.lookup j := by
  induction entries with
  | nil => rfl
  | cons entry entries ih =>
    obtain ⟨i, u⟩ := entry
    by_cases hi : i = k
    · subst hi
      rw [List.filter_cons_of_neg (by simp), ih, List.lookup_cons, beq_false_of_ne h]
    · rw [List.filter_cons_of_pos (by simpa using hi), List.lookup_cons, List.lookup_cons, ih]

theorem lookup_aset (entries : List (κ × ν)) (k : κ) (v : ν) (j : κ) :
    (aset entries k v).lookup j = if j == k then some v else entries.lookup j := by
  induction entries with
  | nil =>
    rw [aset, List.lookup_cons]
    by_cases hj : j = k
    · simp [hj]
    · rw [beq_false_of_ne hj]
      rfl
  | cons entry entries ih =>
    obtain ⟨i, u⟩ := entry
    rw [aset]
    by_cases hi : i = k
    · subst hi
      rw [if_pos (beq_self_eq_true i), List.lookup_cons, List.lookup_cons]
      by_cases hj : j = i
      · simp [hj]
      · rw [beq_false_of_ne hj, lookup_filter_ne hj]
        rfl
    · rw [if_neg (by simpa using hi), List.lookup_cons, List.lookup_cons, ih]
      by_cases hj : j = i
      · subst hj
        simp [hi]
      · rw [beq_false_of_ne hj]

omit [LawfulBEq κ] in
theorem length_aset_le (entries : List (κ × ν)) (k : κ) (v : ν) :
    (aset entries k v).length ≤ entries.length + 1 := by
  induction entries with
  | nil => exact Nat.le_refl _
  | cons entry entries ih =>
    obtain ⟨j, u⟩ := entry
    rw [aset]
    split_ifs
    · have hfilter := List.length_filter_le (fun entry => entry.1 != k) entries
      simp only [List.length_cons]
      omega
    · simpa using ih

omit [LawfulBEq κ] in
theorem length_collect_le (pairs : List (κ × ν)) : (collect pairs).length ≤ pairs.length := by
  induction pairs using List.reverseRecOn with
  | nil => exact Nat.le_refl _
  | append_singleton pairs pair ih =>
    have hcollect : collect (pairs ++ [pair]) = aset (collect pairs) pair.1 pair.2 := by
      simp [collect]
    have haset := length_aset_le (collect pairs) pair.1 pair.2
    rw [hcollect, List.length_append, List.length_singleton]
    omega

theorem lookup_eq_head? (pairs : List (κ × ν)) (k : κ) :
    pairs.lookup k = (values pairs k).head? := by
  induction pairs with
  | nil => rfl
  | cons pair pairs ih =>
    obtain ⟨j, v⟩ := pair
    by_cases hj : j = k
    · subst hj
      simp
    · have hk : (k == j) = false := beq_false_of_ne (Ne.symm hj)
      rw [List.lookup_cons, hk, values_cons_ne hj]
      exact ih

/-- Collecting keeps the last value. -/
theorem lookup_collect (pairs : List (κ × ν)) (k : κ) :
    (collect pairs).lookup k = (values pairs k).getLast? := by
  induction pairs using List.reverseRecOn with
  | nil => rfl
  | append_singleton pairs pair ih =>
    obtain ⟨j, v⟩ := pair
    have hcollect : collect (pairs ++ [(j, v)]) = aset (collect pairs) j v := by
      simp [collect]
    have hvalues : values (pairs ++ [(j, v)]) k =
        values pairs k ++ if j == k then [v] else [] := by
      by_cases hj : j = k <;> simp [values, hj]
    rw [hcollect, hvalues, lookup_aset, ih]
    by_cases hj : j = k
    · simp [hj]
    · have hk : k ≠ j := Ne.symm hj
      simp [hj, hk]

end HyperRuby.Library.Hash
