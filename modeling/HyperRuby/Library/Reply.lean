import HyperRuby.Library.Transition
import Mathlib.Algebra.Group.Prod
import Mathlib.Algebra.Order.Group.Multiset
import Mathlib.Data.Multiset.Filter
import Mathlib.Data.Multiset.Count

/-! # Replies over one-time slots

A client drafts a request with a slot of its own, sends it to the servers and
waits on the slot; a server that holds the request fills the slot once. What
the parties hold adds up. A change by one party is good when it keeps the books
of everybody in order, whatever the other parties hold.
-/
namespace HyperRuby.Library

variable {δ β : Type*}

section Slots
variable (vacant : β → Bool)

/-- The slot has not been filled or given up. -/
def Open (slots : List β) (k : ℕ) : Prop := slots[k]?.any vacant = true

instance (slots : List β) (k : ℕ) : Decidable (Open vacant slots k) :=
  inferInstanceAs (Decidable (_ = true))

variable {vacant} {slots : List β}

theorem open_append {b : β} {k : ℕ} (hk : k < slots.length) :
    Open vacant (slots ++ [b]) k ↔ Open vacant slots k := by
  rw [Open, List.getElem?_append_left hk, Open]

theorem open_append_self {b : β} (hb : vacant b = true) :
    Open vacant (slots ++ [b]) slots.length := by
  simpa [Open] using hb

theorem open_modify {f : β → β} (hf : ∀ b, vacant (f b) = false) (i k : ℕ) :
    Open vacant (slots.modify i f) k ↔ Open vacant slots k ∧ k ≠ i := by
  unfold Open
  rw [List.getElem?_modify]
  by_cases hik : i = k
  · subst hik
    cases slots[i]? <;> simp [hf]
  · have hki : k ≠ i := fun h => hik h.symm
    cases slots[k]? <;> simp [hik, hki]

end Slots

/-- The books are in order: every slot in use is known, each belongs to one request, drafts are
unanswered, the requests with an open slot that servers hold are the ones clients wait for, and
no request that both sides have is answered. Where clients do not leave, servers hold no other
requests. -/
structure Settled (key : δ → ℕ) (vacant : β → Bool) (leaving : Bool)
    (drafted waiting held : Multiset δ) (slots : List β) : Prop where
  known : ∀ d, d ∈ drafted ∨ d ∈ waiting ∨ d ∈ held → key d < slots.length
  clients : ((drafted + waiting).map key).Nodup
  servers : ((drafted + held).map key).Nodup
  unsent : ∀ d ∈ drafted, Open vacant slots (key d)
  attended : leaving = false → ∀ d ∈ held, Open vacant slots (key d)
  matched : held.filter (fun d => Open vacant slots (key d)) =
    waiting.filter (fun d => Open vacant slots (key d))
  shared : ∀ d ∈ waiting, d ∈ held → Open vacant slots (key d)

variable {key : δ → ℕ} {vacant : β → Bool} {leaving : Bool} {slots slots' slots'' : List β}

namespace Settled
variable {drafted waiting held m : Multiset δ} {d e : δ}

theorem nil : Settled key vacant leaving 0 0 0 [] :=
  ⟨by simp, by simp, by simp, by simp, by simp, by simp, by simp⟩

theorem key_ne (h : ((d ::ₘ m).map key).Nodup) (he : e ∈ m) : key e ≠ key d := by
  rw [Multiset.map_cons, Multiset.nodup_cons] at h
  intro heq
  exact h.1 (heq ▸ Multiset.mem_map_of_mem key he)

theorem nodup_tail (h : ((d ::ₘ m).map key).Nodup) : (m.map key).Nodup := by
  rw [Multiset.map_cons, Multiset.nodup_cons] at h
  exact h.2

theorem draft (h : Settled key vacant leaving drafted waiting held slots) (x : β)
    (fresh : key d = slots.length) (hx : vacant x = true) :
    Settled key vacant leaving (d ::ₘ drafted) waiting held (slots ++ [x]) := by
  have hnew : ∀ m : Multiset δ, (∀ e ∈ m, key e < slots.length) → key d ∉ m.map key := by
    intro m hm hmem
    rcases Multiset.mem_map.mp hmem with ⟨e, he, heq⟩
    have := hm e he
    omega
  have hd : ∀ e ∈ drafted, key e < slots.length := fun e he => h.known e (.inl he)
  have hw : ∀ e ∈ waiting, key e < slots.length := fun e he => h.known e (.inr (.inl he))
  have hh : ∀ e ∈ held, key e < slots.length := fun e he => h.known e (.inr (.inr he))
  constructor
  · intro e he
    rw [List.length_append, List.length_singleton]
    rcases he with he | he
    · rcases Multiset.mem_cons.mp he with rfl | he
      · omega
      · have := hd e he
        omega
    · have := h.known e (.inr he)
      omega
  · rw [Multiset.cons_add, Multiset.map_cons, Multiset.nodup_cons]
    refine ⟨hnew _ ?_, h.clients⟩
    intro e he
    rcases Multiset.mem_add.mp he with he | he
    · exact hd e he
    · exact hw e he
  · rw [Multiset.cons_add, Multiset.map_cons, Multiset.nodup_cons]
    refine ⟨hnew _ ?_, h.servers⟩
    intro e he
    rcases Multiset.mem_add.mp he with he | he
    · exact hd e he
    · exact hh e he
  · intro e he
    rcases Multiset.mem_cons.mp he with rfl | he
    · rw [fresh]
      exact open_append_self hx
    · exact (open_append (hd e he)).mpr (h.unsent e he)
  · exact fun hstay e he => (open_append (hh e he)).mpr (h.attended hstay e he)
  · rw [Multiset.filter_congr (fun e he => open_append (hh e he)),
      Multiset.filter_congr (fun e he => open_append (hw e he))]
    exact h.matched
  · exact fun e hew heh => (open_append (hh e heh)).mpr (h.shared e hew heh)

/-- A draft is sent: the client waits and a server holds the request. -/
theorem send (h : Settled key vacant leaving (d ::ₘ drafted) waiting held slots) :
    Settled key vacant leaving drafted (d ::ₘ waiting) (d ::ₘ held) slots := by
  have hopen : Open vacant slots (key d) := h.unsent d (Multiset.mem_cons_self d _)
  constructor
  · intro e he
    apply h.known e
    simp only [Multiset.mem_cons] at he ⊢
    tauto
  · have := h.clients
    rwa [Multiset.cons_add, ← Multiset.add_cons] at this
  · have := h.servers
    rwa [Multiset.cons_add, ← Multiset.add_cons] at this
  · exact fun e he => h.unsent e (Multiset.mem_cons_of_mem he)
  · intro hstay e he
    rcases Multiset.mem_cons.mp he with rfl | he
    · exact hopen
    · exact h.attended hstay e he
  · have hpos : ∀ m : Multiset δ, (d ::ₘ m).filter (fun e => Open vacant slots (key e)) =
        d ::ₘ m.filter (fun e => Open vacant slots (key e)) :=
      fun m => Multiset.filter_cons_of_pos m hopen
    rw [hpos, hpos, h.matched]
  · intro e hew heh
    rcases Multiset.mem_cons.mp hew with rfl | hew
    · exact hopen
    rcases Multiset.mem_cons.mp heh with rfl | heh
    · exact hopen
    · exact h.shared e hew heh

theorem scrap (h : Settled key vacant leaving (d ::ₘ drafted) waiting held slots) :
    Settled key vacant leaving drafted waiting held slots := by
  constructor
  · exact fun e he => h.known e (he.imp_left Multiset.mem_cons_of_mem)
  · have := h.clients
    rw [Multiset.cons_add] at this
    exact nodup_tail this
  · have := h.servers
    rw [Multiset.cons_add] at this
    exact nodup_tail this
  · exact fun e he => h.unsent e (Multiset.mem_cons_of_mem he)
  · exact h.attended
  · exact h.matched
  · exact h.shared

section Fill
variable {f : β → β} (hf : ∀ b, vacant (f b) = false)
include hf

theorem matched_fill {l : Multiset δ}
    (h : l.filter (fun e => Open vacant slots (key e)) =
      (d ::ₘ m).filter (fun e => Open vacant slots (key e))) :
    l.filter (fun e => Open vacant (slots.modify (key d) f) (key e)) =
      m.filter (fun e => Open vacant (slots.modify (key d) f) (key e)) := by
  have hsplit : ∀ n : Multiset δ,
      n.filter (fun e => Open vacant (slots.modify (key d) f) (key e)) =
        (n.filter (fun e => Open vacant slots (key e))).filter (fun e => key e ≠ key d) := by
    intro n
    rw [Multiset.filter_filter]
    apply Multiset.filter_congr
    intro e _
    rw [open_modify hf, and_comm]
  rw [hsplit l, h, ← hsplit]
  apply Multiset.filter_cons_of_neg
  rw [open_modify hf]
  exact fun hopen => hopen.2 rfl

theorem open_other (hd : ((d ::ₘ m).map key).Nodup) (he : e ∈ m)
    (hopen : Open vacant slots (key e)) : Open vacant (slots.modify (key d) f) (key e) :=
  (open_modify hf _ _).mpr ⟨hopen, key_ne hd he⟩

/-- A server fills the slot of a request it holds, or gives it up. -/
theorem answer (h : Settled key vacant leaving drafted waiting (d ::ₘ held) slots) :
    Settled key vacant leaving drafted waiting held (slots.modify (key d) f) := by
  have hservers : ((d ::ₘ (drafted + held)).map key).Nodup := by
    rw [← Multiset.add_cons]
    exact h.servers
  have hheld : ((d ::ₘ held).map key).Nodup := by
    have := h.servers
    rw [Multiset.map_add] at this
    exact (Multiset.nodup_add.mp this).2.1
  constructor
  · intro e he
    rw [List.length_modify]
    apply h.known e
    simp only [Multiset.mem_cons]
    tauto
  · exact h.clients
  · exact nodup_tail hservers
  · exact fun e he => open_other hf hservers (Multiset.mem_add.mpr (.inl he)) (h.unsent e he)
  · exact fun hstay e he =>
      open_other hf hheld he (h.attended hstay e (Multiset.mem_cons_of_mem he))
  · exact (matched_fill hf h.matched.symm).symm
  · exact fun e hew heh =>
      open_other hf hheld heh (h.shared e hew (Multiset.mem_cons_of_mem heh))

/-- A client that waits goes away, and its slot with it. -/
theorem leave (h : Settled key vacant true drafted (d ::ₘ waiting) held slots) :
    Settled key vacant true drafted waiting held (slots.modify (key d) f) := by
  have hclients : ((d ::ₘ (drafted + waiting)).map key).Nodup := by
    rw [← Multiset.add_cons]
    exact h.clients
  constructor
  · intro e he
    rw [List.length_modify]
    apply h.known e
    simp only [Multiset.mem_cons]
    tauto
  · exact nodup_tail hclients
  · exact h.servers
  · exact fun e he => open_other hf hclients (Multiset.mem_add.mpr (.inl he)) (h.unsent e he)
  · nofun
  · exact matched_fill hf h.matched
  · exact fun e hew heh => open_other hf hclients (Multiset.mem_add.mpr (.inr hew))
      (h.shared e (Multiset.mem_cons_of_mem hew) heh)

end Fill

theorem collect (h : Settled key vacant leaving drafted (d ::ₘ waiting) held slots)
    (hdone : ¬ Open vacant slots (key d)) :
    Settled key vacant leaving drafted waiting held slots := by
  constructor
  · intro e he
    apply h.known e
    simp only [Multiset.mem_cons]
    tauto
  · have := h.clients
    rw [Multiset.add_cons] at this
    exact nodup_tail this
  · exact h.servers
  · exact h.unsent
  · exact h.attended
  · exact h.matched.trans (Multiset.filter_cons_of_neg waiting hdone)
  · exact fun e hew heh => h.shared e (Multiset.mem_cons_of_mem hew) heh

/-- Where clients stay, the servers hold exactly the requests that wait for a reply. -/
theorem held_eq (h : Settled key vacant false drafted waiting held slots) :
    held = waiting.filter (fun d => Open vacant slots (key d)) := by
  rw [← h.matched]
  exact (Multiset.filter_eq_self.mpr (h.attended rfl)).symm

theorem held_nodup (h : Settled key vacant leaving drafted waiting held slots) :
    (held.map key).Nodup := by
  have := h.servers
  rw [Multiset.map_add] at this
  exact (Multiset.nodup_add.mp this).2.1

end Settled

/-- What parties hold: requests not sent yet, claims to a reply, and requests to be answered. -/
abbrev Stakes (δ : Type*) := Multiset δ × Multiset δ × Multiset δ

/-- A change by one party that keeps the books of all in order, whatever the others hold. -/
def Update (key : δ → ℕ) (vacant : β → Bool) (leaving : Bool) (a : Stakes δ) (slots : List β)
    (b : Stakes δ) (slots' : List β) : Prop :=
  ∀ rest : Stakes δ,
    Settled key vacant leaving (a + rest).1 (a + rest).2.1 (a + rest).2.2 slots →
    Settled key vacant leaving (b + rest).1 (b + rest).2.1 (b + rest).2.2 slots'

namespace Update
variable {a b c : Stakes δ}

theorem refl : Update key vacant leaving a slots a slots := fun _ h => h

theorem trans (h : Update key vacant leaving a slots b slots')
    (h' : Update key vacant leaving b slots' c slots'') :
    Update key vacant leaving a slots c slots'' := fun rest hrest => h' rest (h rest hrest)

theorem frame (h : Update key vacant leaving a slots b slots') (r : Stakes δ) :
    Update key vacant leaving (a + r) slots (b + r) slots' := by
  intro rest hrest
  rw [add_assoc] at hrest ⊢
  exact h (r + rest) hrest

theorem cast {a' b' : Stakes δ} (h : Update key vacant leaving a slots b slots') (ha : a' = a)
    (hb : b' = b) : Update key vacant leaving a' slots b' slots' := by
  rw [ha, hb]
  exact h

theorem settled (h : Update key vacant leaving a slots b slots')
    (ha : Settled key vacant leaving a.1 a.2.1 a.2.2 slots) :
    Settled key vacant leaving b.1 b.2.1 b.2.2 slots' := by
  have hzero := h 0
  rw [add_zero, add_zero] at hzero
  exact hzero ha

variable (d : δ)

theorem draft (x : β) (fresh : key d = slots.length) (hx : vacant x = true) :
    Update key vacant leaving 0 slots ({d}, 0, 0) (slots ++ [x]) := by
  intro rest h
  simpa using Settled.draft (d := d) (by simpa using h) x fresh hx

theorem send : Update key vacant leaving ({d}, 0, 0) slots (0, {d}, {d}) slots := by
  intro rest h
  simpa using Settled.send (d := d) (by simpa using h)

theorem scrap : Update key vacant leaving ({d}, 0, 0) slots 0 slots := by
  intro rest h
  simpa using Settled.scrap (d := d) (by simpa using h)

theorem answer {f : β → β} (hf : ∀ x, vacant (f x) = false) :
    Update key vacant leaving (0, 0, {d}) slots 0 (slots.modify (key d) f) := by
  intro rest h
  simpa using Settled.answer (d := d) hf (by simpa using h)

theorem leave {f : β → β} (hf : ∀ x, vacant (f x) = false) :
    Update key vacant true (0, {d}, 0) slots 0 (slots.modify (key d) f) := by
  intro rest h
  simpa using Settled.leave (d := d) hf (by simpa using h)

theorem collect (hdone : ¬ Open vacant slots (key d)) :
    Update key vacant leaving (0, {d}, 0) slots 0 slots := by
  intro rest h
  simpa using Settled.collect (d := d) (by simpa using h) hdone

end Update

section Tally

/-- Of the slots filled in a certain way, each has been read, or its client still waits. -/
def Tallied (key : δ → ℕ) (filled : β → Bool) (read : ℕ) (waiting : Multiset δ)
    (slots : List β) : Prop :=
  slots.countP filled = read + waiting.countP (fun d => Open filled slots (key d))

theorem countP_modify (filled : β → Bool) (f : β → β) {i : ℕ} {x : β} (hx : slots[i]? = some x) :
    (slots.modify i f).countP filled + (if filled x then 1 else 0) =
      slots.countP filled + if filled (f x) then 1 else 0 := by
  induction slots generalizing i with
  | nil => simp at hx
  | cons y slots ih =>
    cases i with
    | zero =>
      obtain rfl : y = x := by simpa using hx
      simp only [List.modify_zero_cons, List.countP_cons]
      omega
    | succ i =>
      have := ih (i := i) (by simpa using hx)
      simp only [List.modify_succ_cons, List.countP_cons]
      omega

namespace Tallied
variable {filled : β → Bool} {read : ℕ} {waiting : Multiset δ} {d : δ} {x : β}

theorem nil : Tallied key filled 0 0 [] := rfl

theorem ask (h : Tallied key filled read waiting slots)
    (hknown : ∀ e ∈ waiting, key e < slots.length) (fresh : key d = slots.length)
    (hx : filled x = false) : Tallied key filled read (d ::ₘ waiting) (slots ++ [x]) := by
  have hnew : ¬ Open filled (slots ++ [x]) (key d) := by simp [Open, fresh, hx]
  have hold : waiting.countP (fun e => Open filled (slots ++ [x]) (key e)) =
      waiting.countP (fun e => Open filled slots (key e)) :=
    Multiset.countP_congr rfl fun e he => propext (open_append (hknown e he))
  unfold Tallied at h ⊢
  rw [List.countP_append, List.countP_singleton, Multiset.countP_cons, hold, if_neg hnew, h]
  simp [hx]

theorem keep {f : β → β} (h : Tallied key filled read waiting slots)
    (hf : ∀ y, filled (f y) = filled y) (i : ℕ) :
    Tallied key filled read waiting (slots.modify i f) := by
  have hopen : ∀ k, Open filled (slots.modify i f) k ↔ Open filled slots k := by
    intro k
    unfold Open
    rw [List.getElem?_modify]
    by_cases hik : i = k
    · cases slots[k]? <;> simp [hik, hf]
    · cases slots[k]? <;> simp [hik]
  unfold Tallied at h ⊢
  simp only [hopen]
  rw [← h]
  cases hi : slots[i]? with
  | none => rw [List.modify_eq_self (List.getElem?_eq_none_iff.mp hi)]
  | some y =>
    have := countP_modify filled f hi
    rw [hf] at this
    omega

theorem fill {f : β → β} (h : Tallied key filled read waiting slots) (hd : d ∈ waiting)
    (hkeys : (waiting.map key).Nodup) (hx : slots[key d]? = some x) (hempty : filled x = false) :
    Tallied key filled read waiting (slots.modify (key d) f) := by
  rcases Multiset.exists_cons_of_mem hd with ⟨others, rfl⟩
  have hothers : others.countP (fun e => Open filled (slots.modify (key d) f) (key e)) =
      others.countP (fun e => Open filled slots (key e)) := by
    apply Multiset.countP_congr rfl
    intro e he
    have hne : key d ≠ key e := (Settled.key_ne hkeys he).symm
    simp [Open, hne]
  have hbefore : ¬ Open filled slots (key d) := by simp [Open, hx, hempty]
  have hafter : Open filled (slots.modify (key d) f) (key d) ↔ filled (f x) = true := by
    simp [Open, hx]
  have hcount := countP_modify filled f hx
  rw [hempty] at hcount
  unfold Tallied at h ⊢
  rw [Multiset.countP_cons, if_neg hbefore] at h
  rw [Multiset.countP_cons, hothers, if_congr hafter rfl rfl]
  simp only [Bool.false_eq_true, if_false] at hcount
  omega

theorem collect (h : Tallied key filled read (d ::ₘ waiting) slots) (hx : slots[key d]? = some x) :
    Tallied key filled (read + if filled x then 1 else 0) waiting slots := by
  unfold Tallied at h ⊢
  rw [Multiset.countP_cons] at h
  simp only [Open, hx, Option.any_some] at h ⊢
  omega

end Tallied
end Tally
end HyperRuby.Library
