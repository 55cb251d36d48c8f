import HyperRuby.Dispatch.Conservation

/-! # What a drain that timed out has swept

A drain that times out books whatever is on the gauge as abandoned, and the tasks
it leaves behind go on and count it once more. The totals are right where the swap
finds the gauge at zero, and where the tasks that hold messages come to a stop with it.
-/
namespace HyperRuby.Dispatch
open Framing Library

section Swept
variable {config : Config} {s : System}

/-- A timed out drain swaps the gauge only when it stands at zero. -/
def System.SwapsEmpty (s : System) (a : Action) : Prop :=
  a = .drain .swap → s.shared.counters.pending = 0

instance (s : System) (a : Action) : Decidable (s.SwapsEmpty a) :=
  inferInstanceAs (Decidable (_ → _))

/-- A step of a task that holds a message. -/
def Action.delivers : Action → Bool
  | .delivery _ | .task _ => true
  | _ => false

/-- A timed out drain swaps the gauge only when no task is about to release it, and from then on
delivery tasks and datagram tasks stand still. -/
def System.Halts (s : System) (a : Action) : Prop :=
  (a = .drain .swap → ¬ s.Releasing) ∧ (s.drain.late = true → a.delivers = false)

instance (s : System) (a : Action) : Decidable (s.Halts a) := inferInstanceAs (Decidable (_ ∧ _))

theorem gauge_le_unsettled (h : ¬ s.Releasing) :
    Account.onGauge s.account ≤ Account.unsettled s.account := by
  rw [unsettled_eq h]
  exact Multiset.le_add_right _ _

theorem swept_eq_zero (h : Reached (System.exec config) System.SwapsEmpty (.start config) s) :
    s.swept = 0 := by
  refine h.invariant (fun s => s.swept = 0) rfl ?_
  intro s a t hreached ok ih he
  have hstep := exec_step he
  cases hb : a.bulk with
  | false => exact (hstep.drain_eq hb).2.2.trans ih
  | true =>
    cases hstep with
    | swap expired =>
      have hgauge := ((booked hreached).onTime (by rw [expired]; rfl)).2
      exact Multiset.card_eq_zero.mp (hgauge.symm.trans (ok rfl))
    | abandon n swapped => exact ih
    | _ => cases hb

/-- Readers hand over what they number, so only the tasks behind them record outcomes. -/
theorem settles_eq_none {a : Action} (hc : ∀ c ∈ s.conns, c.Coherent) (h : a.delivers = false) :
    s.settles a = none := by
  cases a with
  | reader i input =>
    cases hi : s.conns[i]? with
    | none => simp [System.settles, hi]
    | some c =>
      have hhanded := (hc c (List.mem_of_getElem? hi)).handedOver
      cases hr : c.reader <;> simp_all [System.settles, Reader.settles, Reader.unsuccessful]
  | delivery | task => cases h
  | listener | receiver | worker | drain | elsewhere => rfl

/-- What was swept stays unsettled while the tasks stand still. -/
theorem swept_unsettled (h : Reached (System.exec config) System.Halts (.start config) s) :
    s.swept ≤ Account.unsettled s.account := by
  refine h.invariant (fun s => s.swept ≤ Account.unsettled s.account) (Multiset.zero_le _) ?_
  intro s a t hreached ok ih he
  have hstep := exec_step he
  have hcoherent := conns_coherent hreached
  cases hb : a.bulk with
  | false =>
    rw [(hstep.drain_eq hb).2.2]
    refine (hstep.move hcoherent hb).covered (fun i hi => ?_) ih
    cases hlate : s.drain.late with
    | false => simp [((booked hreached).onTime hlate).1]
    | true => simp [settles_eq_none hcoherent (ok.2 hlate)] at hi
  | true =>
    cases hstep with
    | swap expired => exact gauge_le_unsettled (ok.1 rfl)
    | abandon n swapped => exact ih
    | _ => cases hb

theorem System.Booked.decided_le (hs : s.Booked config)
    (h : s.swept ≤ Account.unsettled s.account) :
    s.shared.counters.decided ≤ s.shared.numbered + s.shared.received := by
  rcases hs.balanced with ⟨n, hn, hbal⟩
  have hcard := Multiset.card_le_card h
  have hbooks := hbal.books
  simp only [Shared.pool] at hbooks
  omega

end Swept

/-- Drained in time or not, no message is counted twice in runs in which the gauge is at zero when
it is swapped, or in which it is not about to be released then and the tasks stand still
afterwards. -/
theorem decided_le_entered (config : Config) (s : System)
    (h : Reached (System.exec config) System.SwapsEmpty (.start config) s ∨
      Reached (System.exec config) System.Halts (.start config) s) :
    s.shared.counters.decided ≤ s.shared.numbered + s.shared.received := by
  rcases h with hempty | hhalts
  · refine (booked hempty).decided_le ?_
    rw [swept_eq_zero hempty]
    exact Multiset.zero_le _
  · exact (booked hhalts).decided_le (swept_unsettled hhalts)

/-- Two drains that time out: one between two messages, with the gauge at zero, and one that sweeps
a message which a worker then accepts in vain. -/
theorem decided_le_entered_late :
    (∃ s : System, Reached (System.exec .small) System.SwapsEmpty (.start .small) s ∧
      (s.drain = .timedOut ∧ s.shared.counters.decided = 2) ∧
      s.shared.counters.decided ≤ s.shared.numbered + s.shared.received) ∧
    ∃ s : System, Reached (System.exec .small) System.Halts (.start .small) s ∧
      (s.drain = .timedOut ∧ s.shared.counters.decided = 1) ∧
      s.shared.counters.decided ≤ s.shared.numbered + s.shared.received := by
  have hempty : ∃ s : System, Reached (System.exec .small) System.SwapsEmpty (.start .small) s ∧
      (s.drain = .timedOut ∧ s.shared.counters.decided = 2) :=
    exists_reached
      (serving [120, 10, 121, 10] 5 ++
        [.delivery 0, .delivery 0, .worker .hire, .worker (.take 0),
          .worker (.answer 0 .accepted), .delivery 0, .delivery 0, .delivery 0, .delivery 0,
          .drain .wait, .drain .timeout, .drain .swap, .drain .abandon] ++
        List.replicate 5 (.reader 0 (.go 0)) ++
        [.delivery 0, .delivery 0, .worker (.take 0), .worker (.answer 0 .accepted), .delivery 0,
          .delivery 0])
      (by decide +kernel)
  have hhalts : ∃ s : System, Reached (System.exec .small) System.Halts (.start .small) s ∧
      (s.drain = .timedOut ∧ s.shared.counters.decided = 1) :=
    exists_reached
      (serving [120, 10] 5 ++
        [.delivery 0, .delivery 0, .worker .hire, .worker (.take 0), .drain .wait, .drain .timeout,
          .drain .swap, .drain .abandon, .worker (.answer 0 .accepted)])
      (by decide +kernel)
  rcases hempty with ⟨s, hs, hlate⟩
  rcases hhalts with ⟨t, ht, hlate'⟩
  exact ⟨⟨s, hs, hlate, decided_le_entered .small s (.inl hs)⟩,
    ⟨t, ht, hlate', decided_le_entered .small t (.inr ht)⟩⟩

/-- A worker accepts the only message after the drain timed out: it is counted as abandoned
and as delivered. -/
theorem swept_message_counted_twice :
    ∃ s : System, s.Reachable .small ∧ s.shared.numbered + s.shared.received = 1 ∧
      s.shared.counters.decided = 2 :=
  exists_reached
    (serving [120, 10] 5 ++
      [.delivery 0, .delivery 0, .worker .hire, .worker (.take 0), .drain .wait, .drain .timeout,
        .drain .swap, .drain .abandon, .worker (.answer 0 .accepted), .delivery 0, .delivery 0])
    (by decide +kernel)

end HyperRuby.Dispatch
