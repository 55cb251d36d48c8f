import Mathlib.Algebra.Order.Group.Multiset
import Mathlib.Data.Multiset.Filter
import Mathlib.Data.Multiset.Count
import Mathlib.Tactic.Abel

/-! # A ledger of permits, a gauge and outcomes

Holders draw permits from a pool, enter cases into the books, put them on a
gauge, and settle each case once. What a holder has is a multiset of tokens, so
the accounts of several holders add up, and a move of one holder is a move of
the whole with the tokens of the others along for the ride.
-/
namespace HyperRuby.Library

/-- A permit, a case on the gauge, an unsettled case with or without its number, and the
number of a case that was ever drawn. -/
inductive Token where
  | permit
  | gauged (i : ℕ)
  | opened (i : ℕ)
  | anonymous
  | number (i : ℕ)
  deriving DecidableEq, Repr

abbrev Account := Multiset Token

/-- The shared side: free permits, the gauge, the cases entered and settled, and the next
number to draw. -/
structure Pool where
  free : ℕ
  gauge : ℕ
  entered : ℕ
  settled : ℕ
  next : ℕ
  deriving DecidableEq, Repr

/-- One move of one holder; the label is the numbered case that it settles. -/
inductive Move : Option ℕ → Account → Pool → Account → Pool → Prop where
  | rest (a : Account) (p : Pool) : Move none a p a p
  | acquire (a : Account) (p : Pool) (available : 0 < p.free) :
      Move none a p ({.permit} + a) { p with free := p.free - 1 }
  | giveBack (a : Account) (p : Pool) :
      Move none ({.permit} + a) p a { p with free := p.free + 1 }
  | arrive (a : Account) (p : Pool) :
      Move none a p ({.anonymous} + a) { p with entered := p.entered + 1 }
  | enter (a : Account) (p : Pool) :
      Move none a p ({.opened p.next} + {.number p.next} + a)
        { p with entered := p.entered + 1, next := p.next + 1 }
  | name (a : Account) (p : Pool) :
      Move none ({.anonymous} + a) p ({.opened p.next} + {.number p.next} + a)
        { p with next := p.next + 1 }
  | reserve (a : Account) (p : Pool) :
      Move none a p ({.number p.next} + a) { p with next := p.next + 1 }
  | record (i : ℕ) (a : Account) (p : Pool) :
      Move none a p ({.gauged i} + a) { p with gauge := p.gauge + 1 }
  | settle (i : ℕ) (a : Account) (p : Pool) :
      Move (some i) ({.opened i} + a) p a { p with settled := p.settled + 1 }
  | discard (a : Account) (p : Pool) :
      Move none ({.anonymous} + a) p a { p with settled := p.settled + 1 }
  | release (i : ℕ) (a : Account) (p : Pool) :
      Move none ({.gauged i} + a) p a { p with gauge := p.gauge - 1 }

/-- The other holders do not disturb a move. -/
theorem Move.frame {label : Option ℕ} {a b : Account} {p q : Pool} (h : Move label a p b q)
    (r : Account) : Move label (a + r) p (b + r) q := by
  cases h with
  | rest => exact .rest _ _
  | acquire _ _ available => rw [add_assoc]; exact .acquire _ _ available
  | giveBack => rw [add_assoc]; exact .giveBack _ _
  | arrive => rw [add_assoc]; exact .arrive _ _
  | enter => rw [add_assoc]; exact .enter _ _
  | name a => rw [add_assoc, add_assoc]; exact .name _ _
  | reserve => rw [add_assoc]; exact .reserve _ _
  | record i => rw [add_assoc]; exact .record i _ _
  | settle i => rw [add_assoc]; exact .settle i _ _
  | discard => rw [add_assoc]; exact .discard _ _
  | release i => rw [add_assoc]; exact .release i _ _

theorem Move.cast {label label' : Option ℕ} {a a' b b' : Account} {p q q' : Pool}
    (h : Move label a p b q) (hl : label' = label) (ha : a' = a) (hb : b' = b) (hq : q' = q) :
    Move label' a' p b' q' := by
  rw [hl, ha, hb, hq]
  exact h

namespace Token

@[simp] def gaugedNumber : Token → Option ℕ
  | .gauged i => some i
  | _ => none

@[simp] def openedNumber : Token → Option ℕ
  | .opened i => some i
  | _ => none

@[simp] def drawnNumber : Token → Option ℕ
  | .number i => some i
  | _ => none

end Token

namespace Account

def permits (a : Account) : ℕ := a.count .permit
def anonymous (a : Account) : ℕ := a.count .anonymous
def onGauge (a : Account) : Multiset ℕ := a.filterMap Token.gaugedNumber
def unsettled (a : Account) : Multiset ℕ := a.filterMap Token.openedNumber
def drawn (a : Account) : Multiset ℕ := a.filterMap Token.drawnNumber

section Simp
variable (a b : Account) (t : Token)

@[simp] theorem permits_zero : permits 0 = 0 := rfl
@[simp] theorem anonymous_zero : anonymous 0 = 0 := rfl
@[simp] theorem onGauge_zero : onGauge 0 = 0 := rfl
@[simp] theorem unsettled_zero : unsettled 0 = 0 := rfl
@[simp] theorem drawn_zero : drawn 0 = 0 := rfl

@[simp] theorem permits_add : permits (a + b) = permits a + permits b := Multiset.count_add _ _ _
@[simp] theorem anonymous_add : anonymous (a + b) = anonymous a + anonymous b :=
  Multiset.count_add _ _ _
@[simp] theorem onGauge_add : onGauge (a + b) = onGauge a + onGauge b :=
  Multiset.filterMap_add _ _ _
@[simp] theorem unsettled_add : unsettled (a + b) = unsettled a + unsettled b :=
  Multiset.filterMap_add _ _ _
@[simp] theorem drawn_add : drawn (a + b) = drawn a + drawn b := Multiset.filterMap_add _ _ _

@[simp] theorem permits_token : permits {t} = if t = .permit then 1 else 0 := by
  simp only [permits, Multiset.count_singleton, eq_comm]
@[simp] theorem anonymous_token : anonymous {t} = if t = .anonymous then 1 else 0 := by
  simp only [anonymous, Multiset.count_singleton, eq_comm]
@[simp] theorem onGauge_token : onGauge {t} = t.gaugedNumber.elim 0 ({·}) := by
  cases t <;> rfl
@[simp] theorem unsettled_token : unsettled {t} = t.openedNumber.elim 0 ({·}) := by
  cases t <;> rfl
@[simp] theorem drawn_token : drawn {t} = t.drawnNumber.elim 0 ({·}) := by
  cases t <;> rfl

@[simp] theorem permits_cons : permits (t ::ₘ a) = permits {t} + permits a := by
  rw [← Multiset.singleton_add, permits_add]
@[simp] theorem anonymous_cons : anonymous (t ::ₘ a) = anonymous {t} + anonymous a := by
  rw [← Multiset.singleton_add, anonymous_add]
@[simp] theorem onGauge_cons : onGauge (t ::ₘ a) = onGauge {t} + onGauge a := by
  rw [← Multiset.singleton_add, onGauge_add]
@[simp] theorem unsettled_cons : unsettled (t ::ₘ a) = unsettled {t} + unsettled a := by
  rw [← Multiset.singleton_add, unsettled_add]
@[simp] theorem drawn_cons : drawn (t ::ₘ a) = drawn {t} + drawn a := by
  rw [← Multiset.singleton_add, drawn_add]

end Simp
end Account

/-- The books are in order: permits are conserved, the gauge counts no more than what is on
it, every case entered is settled or still open, and numbers are drawn once. `swept` cases
were settled in bulk, `carried` of them not yet booked. -/
structure Balanced (capacity swept carried : ℕ) (a : Account) (p : Pool) : Prop where
  permits : Account.permits a + p.free = capacity
  gauge : p.gauge ≤ (Account.onGauge a).card
  books : p.entered + swept =
    p.settled + carried + (Account.unsettled a).card + Account.anonymous a
  distinct : (Account.drawn a).Nodup
  fresh : ∀ i ∈ Account.drawn a, i < p.next

section Moves
variable {label : Option ℕ} {a b : Account} {p q : Pool}

theorem nodup_draw {drawn : Multiset ℕ} {next : ℕ} (hd : drawn.Nodup)
    (hf : ∀ i ∈ drawn, i < next) :
    ({next} + drawn).Nodup ∧ ∀ i ∈ {next} + drawn, i < next + 1 := by
  rw [Multiset.singleton_add, Multiset.nodup_cons]
  refine ⟨⟨fun h => lt_irrefl _ (hf next h), hd⟩, ?_⟩
  intro i hi
  rcases Multiset.mem_cons.mp hi with rfl | hi
  · omega
  · have := hf i hi
    omega

theorem Move.balanced {capacity swept carried : ℕ} (h : Move label a p b q)
    (hb : Balanced capacity swept carried a p) : Balanced capacity swept carried b q := by
  rcases hb with ⟨hp, hg, hk, hd, hf⟩
  cases h with
  | rest => exact ⟨hp, hg, hk, hd, hf⟩
  | acquire _ _ available =>
    exact ⟨by simp; omega, by simpa using hg, by simpa using hk, by simpa using hd,
      by simpa using hf⟩
  | giveBack =>
    simp at hp hg hk hd hf
    exact ⟨by simp; omega, hg, hk, hd, hf⟩
  | arrive =>
    exact ⟨by simpa using hp, by simpa using hg, by simp; omega, by simpa using hd,
      by simpa using hf⟩
  | enter =>
    have hn := nodup_draw hd hf
    exact ⟨by simpa using hp, by simpa using hg, by simp; omega, by simpa using hn.1,
      by simpa using hn.2⟩
  | name =>
    simp at hp hg hk hd hf
    have hn := nodup_draw hd hf
    exact ⟨by simpa using hp, by simpa using hg, by simp; omega, by simpa using hn.1,
      by simpa using hn.2⟩
  | reserve =>
    have hn := nodup_draw hd hf
    exact ⟨by simpa using hp, by simpa using hg, by simpa using hk, by simpa using hn.1,
      by simpa using hn.2⟩
  | record i =>
    exact ⟨by simpa using hp, by simp; omega, by simpa using hk, by simpa using hd,
      by simpa using hf⟩
  | settle i =>
    simp at hp hg hk hd hf
    exact ⟨hp, hg, by simp; omega, hd, hf⟩
  | discard =>
    simp at hp hg hk hd hf
    exact ⟨hp, hg, by simp; omega, hd, hf⟩
  | release i =>
    simp at hp hg hk hd hf
    exact ⟨hp, by simp; omega, hk, hd, hf⟩

theorem Move.exact (h : Move label a p b q) (hg : p.gauge = (Account.onGauge a).card) :
    q.gauge = (Account.onGauge b).card := by
  cases h with
  | rest => exact hg
  | record i => simp; omega
  | release i =>
    simp at hg
    simp
    omega
  | acquire | giveBack | arrive | enter | name | reserve | settle | discard =>
    simpa using hg

/-- Cases that no move settles stay open. -/
theorem Move.covered {swept : Multiset ℕ} (h : Move label a p b q)
    (hl : ∀ i, label = some i → i ∉ swept) (hs : swept ≤ Account.unsettled a) :
    swept ≤ Account.unsettled b := by
  cases h with
  | rest => exact hs
  | settle i =>
    have hcons : swept ≤ i ::ₘ Account.unsettled b := by simpa using hs
    exact (Multiset.le_cons_of_notMem (hl i rfl)).mp hcons
  | enter =>
    simp only [Account.unsettled_add]
    exact hs.trans (Multiset.le_add_left _ _)
  | name =>
    simp at hs
    simp only [Account.unsettled_add]
    exact hs.trans (Multiset.le_add_left _ _)
  | acquire | giveBack | arrive | reserve | record | discard | release => simpa using hs

end Moves

/-- Sweeping the gauge settles what it counts in bulk; the total is booked later. -/
theorem Balanced.sweep {capacity : ℕ} {a : Account} {p : Pool} (h : Balanced capacity 0 0 a p) :
    Balanced capacity p.gauge p.gauge a { p with gauge := 0 } := by
  have hbooks := h.books
  exact ⟨h.permits, Nat.zero_le _, by simp only; omega, h.distinct, h.fresh⟩

theorem Balanced.carry {capacity swept carried : ℕ} {a : Account} {p : Pool}
    (h : Balanced capacity swept carried a p) :
    Balanced capacity swept 0 a { p with settled := p.settled + carried } :=
  ⟨h.permits, h.gauge, h.books, h.distinct, h.fresh⟩

end HyperRuby.Library
