import Mathlib.Data.List.Basic

/-! # Values that are cut out of a list

A scanner passes over a list once, from state to state. Each value it returns comes from a part
of the list that has the form of the value in the state the scanner is in; between two parts it
passes over what it may skip there, with the elements behind in sight. What has not been
scanned is behind all of them.
-/
namespace HyperRuby.Library

variable {σ α β : Type*} {form : σ → List α → β → σ → Prop} {skips : σ → α → List α → σ → Prop}

/-- From one state to another the scanner cuts the values out of the list, in this order, and
`rest` is left. -/
inductive Cuts (form : σ → List α → β → σ → Prop) (skips : σ → α → List α → σ → Prop) :
    σ → List α → List β → σ → List α → Prop where
  | done (s : σ) (rest : List α) : Cuts form skips s rest [] s rest
  | skip {s t u : σ} {a : α} {whole rest : List α} {values : List β} (skipped : skips s a whole t)
      (later : Cuts form skips t whole values u rest) : Cuts form skips s (a :: whole) values u rest
  | value {s t u : σ} {part whole rest : List α} {v : β} {values : List β} (here : form s part v t)
      (later : Cuts form skips t whole values u rest) :
      Cuts form skips s (part ++ whole) (v :: values) u rest

namespace Cuts
variable {s t u : σ} {whole rest : List α} {values : List β}

theorem found {part : List α} {v : β} (h : form s part v t) (rest : List α) :
    Cuts form skips s (part ++ rest) [v] t rest := .value h (.done t rest)

theorem passed {before : List α} (h : ∀ a ∈ before, ∀ rest, skips s a rest s) (rest : List α) :
    Cuts form skips s (before ++ rest) [] s rest := by
  induction before with
  | nil => exact .done s rest
  | cons a before ih =>
    exact .skip (h a List.mem_cons_self _) (ih fun b hb => h b (List.mem_cons_of_mem _ hb))

theorem trans {last : List α} {more : List β} (h : Cuts form skips s whole values t rest)
    (hmore : Cuts form skips t rest more u last) :
    Cuts form skips s whole (values ++ more) u last := by
  induction h with
  | done => exact hmore
  | skip skipped _ ih => exact .skip skipped (ih hmore)
  | value here _ ih => exact .value here (ih hmore)

/-- Elements that arrive at the end have not been scanned, where what is in sight at a skip
stays in sight. -/
theorem append (hskips : ∀ s a rest t more, skips s a rest t → skips s a (rest ++ more) t)
    (h : Cuts form skips s whole values t rest) (more : List α) :
    Cuts form skips s (whole ++ more) values t (rest ++ more) := by
  induction h with
  | done => exact .done _ _
  | skip skipped _ ih => exact .skip (hskips _ _ _ _ more skipped) ih
  | value here _ ih =>
    rw [List.append_assoc]
    exact .value here ih

end Cuts
end HyperRuby.Library
