import HyperRuby.Dispatch.Credits

/-! # Every message is counted once

Until a drain times out, the messages that came in are those delivered,
abandoned, dropped or pending, whenever no task is between two updates of the
counters.
-/
namespace HyperRuby.Dispatch
open Framing Library

section Between

def Reader.releases : Reader → Bool
  | .releasing _ => true
  | _ => false

def Reader.enters : Reader → Bool
  | .gauging _ => true
  | _ => false

def Delivery.releases : Delivery → Bool
  | .releasing _ => true
  | _ => false

/-- A datagram has come in that is neither dropped nor on the gauge. -/
def Receiver.enters : Receiver → Bool
  | .crediting _ _ _ | .uncredited | .numbering _ _ _ | .gauging _ => true
  | _ => false

/-- Some task has recorded the outcome of its message and has yet to release the gauge. -/
def System.Releasing (s : System) : Prop :=
  (∃ c ∈ s.conns, c.reader.releases = true ∨ c.delivery.releases = true) ∨
    ∃ t ∈ s.tasks, t.stage = .releasing

/-- Some task is between the counter updates of one message. -/
def System.Between (s : System) : Prop :=
  s.Releasing ∨ (∃ c ∈ s.conns, c.reader.enters = true) ∨ s.receiver.enters = true

instance (s : System) : Decidable s.Releasing := inferInstanceAs (Decidable (_ ∨ _))
instance (s : System) : Decidable s.Between := inferInstanceAs (Decidable (_ ∨ _))

/-- The message that has a number and is not yet on the gauge. -/
def Reader.entering : Reader → Multiset ℕ
  | .gauging p => {p.messageId}
  | _ => 0

def Receiver.entering : Receiver → Multiset ℕ
  | .gauging p => {p.messageId}
  | _ => 0

def System.entering (s : System) : Multiset ℕ :=
  (s.conns.map (fun c => c.reader.entering)).sum + s.receiver.entering

/-- What a connection has not settled is on the gauge or about to enter it, unless an outcome
was recorded and the gauge is about to be released. -/
theorem Conn.unsettled_eq {c : Conn} (hr : c.reader.releases = false)
    (hd : c.delivery.releases = false) :
    Account.unsettled c.account = Account.onGauge c.account + c.reader.entering := by
  have hreader : Account.unsettled c.reader.account =
      Account.onGauge c.reader.account + c.reader.entering := by
    cases hpc : c.reader <;>
      simp_all [Reader.account, Reader.releases, Reader.entering, PendingMessage.tokens]
  have hdelivery : Account.unsettled c.delivery.account = Account.onGauge c.delivery.account := by
    cases hpc : c.delivery <;>
      simp_all [Delivery.account, Delivery.releases, PendingMessage.tokens]
  simp only [Conn.account, Account.onGauge_add, Account.unsettled_add, onGauge_channel,
    unsettled_channel, onGauge_numbers, unsettled_numbers, hreader, hdelivery]
  abel

theorem DatagramTask.unsettled_eq {t : DatagramTask} (h : t.stage ≠ .releasing) :
    Account.unsettled t.account = Account.onGauge t.account := by
  cases hs : t.stage <;> simp_all [DatagramTask.account, PendingMessage.tokens]

theorem Receiver.unsettled_eq (r : Receiver) :
    Account.unsettled r.account = Account.onGauge r.account + r.entering := by
  cases r <;> simp [Receiver.account, Receiver.entering, PendingMessage.tokens]

theorem unsettled_eq {s : System} (h : ¬ s.Releasing) :
    Account.unsettled s.account = Account.onGauge s.account + s.entering := by
  simp only [System.Releasing, not_or, not_exists, not_and, Bool.not_eq_true] at h
  have hconns := List.map_congr_left
    (fun c hc => Conn.unsettled_eq (h.1 c hc).1 (h.1 c hc).2)
  have htasks := List.map_congr_left (fun t ht => DatagramTask.unsettled_eq (h.2 t ht))
  simp only [System.account, System.entering, Account.onGauge_add, Account.unsettled_add,
    onGauge_numbers, unsettled_numbers, s.receiver.unsettled_eq,
    tally_measure Account.onGauge rfl Account.onGauge_add,
    tally_measure Account.unsettled rfl Account.unsettled_add, hconns, htasks, List.sum_map_add]
  abel

theorem entering_eq_zero {s : System} (h : ¬ s.Between) : s.entering = 0 := by
  simp only [System.Between, not_or, not_exists, not_and, Bool.not_eq_true] at h
  have hconns : (s.conns.map (fun c => c.reader.entering)).sum = 0 := by
    apply List.sum_eq_zero
    simp only [List.mem_map, forall_exists_index, and_imp]
    rintro _ c hc rfl
    have henters := h.2.1 c hc
    cases hr : c.reader <;> simp_all [Reader.enters, Reader.entering]
  have hreceiver : s.receiver.entering = 0 := by
    cases hr : s.receiver <;> simp_all [Receiver.enters, Receiver.entering]
  rw [System.entering, hconns, hreceiver, add_zero]

theorem unsettled_eq_gauge {s : System} (h : ¬ s.Between) :
    Account.unsettled s.account = Account.onGauge s.account := by
  rw [unsettled_eq (fun hreleasing => h (.inl hreleasing)), entering_eq_zero h, add_zero]

theorem anonymous_account (s : System) :
    Account.anonymous s.account = Account.anonymous s.receiver.account := by
  have hconn : ∀ c : Conn, Account.anonymous c.account = 0 := by
    intro c
    cases hr : c.reader <;> cases hd : c.delivery <;>
      simp [Conn.account, hr, hd, Reader.account, Delivery.account, PendingMessage.tokens]
  have htask : ∀ t : DatagramTask, Account.anonymous t.account = 0 := by
    intro t
    cases hs : t.stage <;> simp [DatagramTask.account, hs, PendingMessage.tokens]
  simp [System.account, tally_measure Account.anonymous rfl Account.anonymous_add, hconn, htask]

theorem gauge_pos {s : System} (h : s.Releasing) : 1 ≤ (Account.onGauge s.account).card := by
  rcases h with ⟨c, hc, hreleases⟩ | ⟨t, ht, hstage⟩
  · rcases account_conn hc with ⟨rest, hrest⟩
    rw [hrest, Account.onGauge_add, Multiset.card_add, Conn.account]
    rcases hreleases with hr | hd
    · cases hpc : c.reader <;> simp_all [Reader.releases, Reader.account]
      omega
    · cases hpc : c.delivery <;> simp_all [Delivery.releases, Delivery.account]
      omega
  · rcases account_task ht with ⟨rest, hrest⟩
    rw [hrest, Account.onGauge_add, Multiset.card_add]
    simp [DatagramTask.account, hstage]

end Between

section Drained
variable {config : Config} {s t : System} {a : Action}

theorem ReaderStep.running {sh sh' : Shared} {c c' : Conn} (h : ReaderStep config sh c sh' c') :
    ¬ (c.reader = .done ∨ c.reader = .panicked) := by
  cases h <;> simp_all

theorem SystemStep.tracked (h : SystemStep config s a t) (hs : s.Tracked) : t.Tracked := by
  rcases hs with ⟨hlisteners, hconns, hreceiver, htasks⟩
  cases h with
  | listener i input l sh l' spawned found step =>
    rw [hlisteners l (List.mem_of_getElem? found)] at step
    cases step
  | reader i input c sh c' found step =>
    exact absurd (hconns c (List.mem_of_getElem? found)) step.running
  | delivery i c sh c' found step =>
    refine ⟨hlisteners, forall_mem_set hconns ?_, hreceiver, htasks⟩
    rw [step.reader_eq]
    exact hconns c (List.mem_of_getElem? found)
  | receiver input sh r spawned step =>
    rw [hreceiver] at step
    cases step
  | task i task sh task' found step =>
    have hstage := htasks task (List.mem_of_getElem? found)
    cases step <;> simp_all
  | worker | stopAccepting | wait | complete | timeout | swap | abandon | elsewhere =>
    exact ⟨hlisteners, hconns, hreceiver, htasks⟩

theorem completed_tracked {allowed : System → Action → Prop}
    (h : Reached (System.exec config) allowed (.start config) s) :
    s.drain = .completed → s.Tracked := by
  refine h.invariant (fun s => s.drain = .completed → s.Tracked) (by simp [System.start]) ?_
  intro s a t _ _ ih he hdrain
  have hkeep : s.Tracked → t.Tracked := (exec_step he).tracked
  cases exec_step he with
  | complete _ tracked => exact tracked
  | wait | timeout | swap | abandon => cases hdrain
  | _ => exact hkeep (ih hdrain)

/-- The reader is about to make a decode call that panics. -/
def Conn.traps (config : Config) (c : Conn) : Bool :=
  c.reader = .decoding && !(c.call config).toBool

def System.traps (config : Config) (s : System) : Action → Bool
  | .reader i _ => s.conns[i]?.any (Conn.traps config)
  | _ => false

theorem readers_running
    (h : Reached (System.exec config) (fun s a => s.traps config a = false) (.start config) s) :
    ∀ c ∈ s.conns, c.reader ≠ .panicked := by
  refine h.invariant (fun s => ∀ c ∈ s.conns, c.reader ≠ .panicked) (by simp [System.start]) ?_
  intro s a t _ ok ih he
  cases exec_step he with
  | listener i input l sh l' spawned found step =>
    intro c hc
    rcases List.mem_append.mp hc with hc | hnew
    · exact ih c hc
    · rcases step.fresh hnew with ⟨peer, rfl⟩
      cases hp : config.proxyProtocol <;> simp [Conn.start, hp]
  | reader i input c sh c' found step =>
    apply forall_mem_set ih
    simp only [System.traps, found, Option.any_some] at ok
    cases step with
    | panicked trap pc call => simp [Conn.traps, pc, call, Except.toBool] at ok
    | decoded | rejected => split_ifs <;> simp
    | _ => simp
  | delivery i c sh c' found step =>
    apply forall_mem_set ih
    rw [step.reader_eq]
    exact ih c (List.mem_of_getElem? found)
  | receiver | task | worker | stopAccepting | wait | complete | timeout | swap | abandon
  | elsewhere =>
    exact ih

/-- With all tracked tasks ended and no reader lost, nothing is left on the gauge. -/
theorem drained {s : System} (htracked : s.Tracked) (hcoherent : ∀ c ∈ s.conns, c.Coherent)
    (hrunning : ∀ c ∈ s.conns, c.reader ≠ .panicked) :
    ¬ s.Between ∧ Account.onGauge s.account = 0 := by
  rcases htracked with ⟨-, hconns, hreceiver, htasks⟩
  have hdone : ∀ c ∈ s.conns, c.reader = .done ∧ c.delivery = .finished ∧ c.channel = [] := by
    intro c hc
    have hreader := (hconns c hc).resolve_right (hrunning c hc)
    have hdelivery := (hcoherent c hc).closed (.inr (.inr hreader))
    exact ⟨hreader, hdelivery, ((hcoherent c hc).finished hdelivery).2⟩
  refine ⟨?_, ?_⟩
  · rintro ((⟨c, hc, hreleases⟩ | ⟨t, ht, hstage⟩) | ⟨c, hc, henters⟩ | henters)
    · simp [(hdone c hc).1, (hdone c hc).2.1, Reader.releases, Delivery.releases] at hreleases
    · rw [htasks t ht] at hstage
      cases hstage
    · simp [(hdone c hc).1, Reader.enters] at henters
    · rw [hreceiver] at henters
      cases henters
  · have hgconns : s.conns.map (fun c => Account.onGauge c.account) = s.conns.map (fun _ => 0) := by
      apply List.map_congr_left
      intro c hc
      simp [Conn.account, hdone c hc, Reader.account, Delivery.account]
    have hgtasks : s.tasks.map (fun t => Account.onGauge t.account) = s.tasks.map (fun _ => 0) := by
      apply List.map_congr_left
      intro t ht
      simp [DatagramTask.account, htasks t ht]
    simp [System.account, tally_measure Account.onGauge rfl Account.onGauge_add, hgconns, hgtasks,
      hreceiver, Receiver.account]

end Drained

section OnTime
variable {config : Config} {s : System}

theorem System.Booked.conserved (hs : s.Booked config) (hlate : s.drain.late = false)
    (hbetween : ¬ s.Between) :
    s.shared.numbered + s.shared.received =
      s.shared.counters.decided + s.shared.counters.pending := by
  rcases hs.balanced with ⟨n, hn, hbal⟩
  rcases hs.onTime hlate with ⟨hswept, hgauge⟩
  have hnone : n = 0 := by simpa [hswept] using hn
  have hcarried : s.drain.carried = 0 := by
    cases hd : s.drain <;> simp_all [Drain.late, Drain.carried]
  have hreceiver : Account.anonymous s.receiver.account = 0 := by
    cases hr : s.receiver <;>
      simp_all [System.Between, Receiver.enters, Receiver.account, PendingMessage.tokens]
  have hbooks := hbal.books
  rw [hnone, hcarried, unsettled_eq_gauge hbetween, ← hgauge, anonymous_account,
    hreceiver] at hbooks
  simpa [Shared.pool] using hbooks

theorem System.Booked.unsaturated (hs : s.Booked config) (hlate : s.drain.late = false)
    (hreleasing : s.Releasing) : 1 ≤ s.shared.counters.pending :=
  (gauge_pos hreleasing).trans (hs.onTime hlate).2.ge

end OnTime

/-- Until a drain times out, the messages that came in are those delivered, abandoned, dropped or
pending whenever no task is between two counter updates, and a release never finds the gauge at
zero. In runs without a panicking decode call a completed drain leaves nothing pending, every
message being counted once. -/
theorem messages_conserved (config : Config) (s : System) :
    (s.Reachable config → s.drain.late = false →
      (¬ s.Between → s.shared.numbered + s.shared.received =
        s.shared.counters.decided + s.shared.counters.pending) ∧
      (s.Releasing → 1 ≤ s.shared.counters.pending)) ∧
    (Reached (System.exec config) (fun s a => s.traps config a = false) (.start config) s →
      s.drain = .completed → s.shared.counters.pending = 0 ∧
        s.shared.numbered + s.shared.received = s.shared.counters.decided) := by
  refine ⟨fun h hlate => ⟨(booked h).conserved hlate, (booked h).unsaturated hlate⟩, ?_⟩
  intro h hdrain
  have hbooked := booked h
  have hlate : s.drain.late = false := by rw [hdrain]; rfl
  rcases drained (completed_tracked h hdrain) (conns_coherent h) (readers_running h) with
    ⟨hbetween, hempty⟩
  have hpending : s.shared.counters.pending = 0 := by
    have hgauge := (hbooked.onTime hlate).2
    rw [hempty] at hgauge
    exact hgauge
  have hconserved := hbooked.conserved hlate hbetween
  exact ⟨hpending, by omega⟩

/-- A worker accepts the only message before the drain completes. -/
theorem messages_conserved_accepted :
    ∃ s : System,
      Reached (System.exec .small) (fun s a => s.traps .small a = false) (.start .small) s ∧
      (s.drain = .completed ∧ s.shared.numbered = 1) ∧ s.shared.counters.pending = 0 ∧
      s.shared.numbered + s.shared.received = s.shared.counters.decided := by
  have hrun : ∃ s : System,
      Reached (System.exec .small) (fun s a => s.traps .small a = false) (.start .small) s ∧
      (s.drain = .completed ∧ s.shared.numbered = 1) :=
    exists_reached
      (serving [120, 10] 6 ++
        [.delivery 0, .delivery 0, .worker .hire, .worker (.take 0), .worker (.answer 0 .accepted),
          .delivery 0, .delivery 0, .delivery 0, .delivery 0, .drain .wait, .listener 0 .cancelled,
          .reader 0 .cancelled, .delivery 0, .reader 0 (.go 0), .reader 0 (.go 0),
          .reader 0 (.go 0), .drain .complete])
      (by decide +kernel)
  rcases hrun with ⟨s, hs, hdone⟩
  exact ⟨s, hs, hdone, (messages_conserved .small s).2 hs hdone.1⟩

/-- One message waits for its verdict and another in the channel when the reader panics: the
tracker has nothing left to wait for and the drain completes over two pending messages. -/
theorem panicked_reader_strands :
    ∃ s : System, s.Reachable .small ∧ s.drain = .completed ∧ s.shared.counters.pending = 2 :=
  exists_reached
    (serving [120, 10, 97, 97, 97, 97, 97, 97, 10, 51, 32, 97, 98] 5 ++
      [.delivery 0, .delivery 0, .reader 0 (.go 0), .reader 0 (.go 0), .reader 0 (.read [99])] ++
      List.replicate 6 (.reader 0 (.go 0)) ++
      [.drain .wait, .listener 0 .cancelled, .drain .complete])
    (by decide +kernel)

end HyperRuby.Dispatch
