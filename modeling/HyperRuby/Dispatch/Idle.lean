import HyperRuby.Dispatch.Conservation
import HyperRuby.Dispatch.Rest

/-! # A process at rest

Where no task can take a step by itself, every message has been dealt with, all
credits are free, and what is still open waits for the outside: for a peer, for
a datagram, for a shutdown.
-/
namespace HyperRuby.Dispatch
open Framing Library

section System
variable {config : Config} {kinds : Action → Bool} {s : System}

theorem System.AtRest.eq {t : System} {a : Action} (h : s.AtRest config kinds)
    (ha : kinds a = true) (he : s.exec config a = some t) : t = s := by
  by_contra hne
  have hnone := h a ⟨ha, by rw [he]; exact fun heq => hne (Option.some.inj heq)⟩
  rw [hnone] at he
  cases he

theorem set_eq_self {τ : Type*} {l : List τ} {i : ℕ} {x y : τ} (hx : l[i]? = some x)
    (h : l.set i y = l) : y = x := by
  have hi : i < l.length := (List.getElem?_eq_some_iff.mp hx).1
  have hy : (l.set i y)[i]? = some y := by rw [List.getElem?_set_self hi]
  rw [h, hx] at hy
  exact (Option.some.inj hy).symm

theorem System.AtRest.mono {fewer : Action → Bool} (h : s.AtRest config kinds)
    (hfewer : ∀ a, fewer a = true → kinds a = true) : s.AtRest config fewer :=
  fun a ha => h a ⟨hfewer a ha.1, ha.2⟩

theorem System.AtRest.delivery (h : s.AtRest config Action.internal) {c : Conn}
    (hc : c ∈ s.conns) (out : Shared × Conn)
    (hout : c.deliveryStep config s.shared = some out) : out.2 = c := by
  rcases List.getElem?_of_mem hc with ⟨i, hi⟩
  have hsame := h.eq (a := .delivery i) rfl
    (t := { s with shared := out.1, conns := s.conns.set i out.2 })
    (by simp [System.exec, hi, hout])
  exact set_eq_self hi (congrArg System.conns hsame)

theorem System.AtRest.reader (h : s.AtRest config Action.internal) {c : Conn} (hc : c ∈ s.conns)
    (out : Shared × Conn) (hout : c.readerStep config s.shared (.go 0) = some out) :
    out.2 = c := by
  rcases List.getElem?_of_mem hc with ⟨i, hi⟩
  have hsame := h.eq (a := .reader i (.go 0)) rfl
    (t := { s with shared := out.1, conns := s.conns.set i out.2 })
    (by simp [System.exec, hi, hout])
  exact set_eq_self hi (congrArg System.conns hsame)

theorem System.AtRest.task (h : s.AtRest config Action.internal) {task : DatagramTask}
    (ht : task ∈ s.tasks) (out : Shared × DatagramTask)
    (hout : task.step config s.shared = some out) : out.2 = task := by
  rcases List.getElem?_of_mem ht with ⟨i, hi⟩
  have hsame := h.eq (a := .task i) rfl
    (t := { s with shared := out.1, tasks := s.tasks.set i out.2 })
    (by simp [System.exec, hi, hout])
  exact set_eq_self hi (congrArg System.tasks hsame)

theorem System.AtRest.listener (h : s.AtRest config Action.internal) {l : Listener}
    (hl : l ∈ s.listeners) :
    l = .accepting ∨ l = .stopped := by
  rcases List.getElem?_of_mem hl with ⟨i, hi⟩
  have hmove : ∀ out, l.step config s.shared .go = some out → out.2.1 = l := by
    intro out hout
    have hsame := h.eq (a := .listener i .go) rfl (t := { s with
      shared := out.1, listeners := s.listeners.set i out.2.1, conns := s.conns ++ out.2.2.toList })
      (by simp [System.exec, hi, hout])
    exact set_eq_self hi (congrArg System.listeners hsame)
  cases l with
  | accepting => exact .inl rfl
  | stopped => exact .inr rfl
  | counted peer before =>
    have hnext := hmove _ rfl
    dsimp only at hnext
    split_ifs at hnext
  | refusing | refused | opening | spawning => cases hmove _ rfl

theorem System.AtRest.receiver (h : s.AtRest config Action.internal) :
    s.receiver = .receiving ∨ s.receiver = .stopped := by
  have hmove : ∀ out, s.receiver.step config s.shared .go = some out → out.2.1 = s.receiver := by
    intro out hout
    have hsame := h.eq (a := .receiver .go) rfl (t := { s with
      shared := out.1, receiver := out.2.1, tasks := s.tasks ++ out.2.2.toList })
      (by simp [System.exec, hout])
    exact congrArg System.receiver hsame
  unfold Receiver.step at hmove
  cases hr : s.receiver with
  | receiving => exact .inl rfl
  | stopped => exact .inr rfl
  | crediting message peer now =>
    rw [hr] at hmove
    by_cases hfree : 0 < s.shared.credits
    · cases hmove _ (if_pos hfree)
    · cases hmove _ (if_neg hfree)
  | truncated | uncredited | numbering | gauging | spawning =>
    rw [hr] at hmove
    cases hmove _ rfl

/-- Workers at rest have nothing, and leave nothing in the queue. -/
theorem System.AtRest.outstanding (h : s.AtRest config Action.internal)
    (hworkers : s.workers ≠ [] ∨ s.shared.queue = []) :
    s.shared.queue = [] ∧ s.outstanding = 0 := by
  have hidle : ∀ w ∈ s.workers, w = none := by
    intro w hw
    rcases List.getElem?_of_mem hw with ⟨k, hk⟩
    cases w with
    | none => rfl
    | some d =>
      have hsame := h.eq (a := .worker (.answer k .accepted)) rfl (t := { s with
        shared := s.shared.answer d (.send .accepted), workers := s.workers.set k none })
        (by simp [System.exec, System.workerStep, hk])
      exact (set_eq_self hk (congrArg System.workers hsame)).symm
  have hqueue : s.shared.queue = [] := by
    rcases hworkers with hworkers | hqueue
    · rcases List.exists_mem_of_ne_nil _ hworkers with ⟨w, hw⟩
      rcases List.getElem?_of_mem hw with ⟨k, hk⟩
      rw [hidle w hw] at hk
      by_contra hne
      rcases List.exists_cons_of_ne_nil hne with ⟨d, queue, hfront⟩
      have hsame := h.eq (a := .worker (.take k)) rfl (t := { s with
        shared := { s.shared with queue := queue }, workers := s.workers.set k (some d) })
        (by simp [System.exec, System.workerStep, hk, hfront])
      cases set_eq_self hk (congrArg System.workers hsame)
    · exact hqueue
  have hheld : s.workers.map (fun w => (w.toList : Multiset SyslogDelivery)) =
      s.workers.map (fun _ => 0) := by
    apply List.map_congr_left
    intro w hw
    rw [hidle w hw]
    rfl
  exact ⟨hqueue, by simp [System.outstanding, hqueue, hheld]⟩

end System

/-- The reader waits for its peer or has ended, and no message of the connection is left. -/
def Conn.Quiet (c : Conn) : Prop :=
  c.reader.waits = true ∧ c.channel = [] ∧
    c.delivery = if c.reader.senderDropped then .finished else .receiving

/-- Every task waits for the outside or has ended. -/
structure System.Idle (config : Config) (s : System) : Prop where
  conns : ∀ c ∈ s.conns, c.Quiet
  tasks : ∀ t ∈ s.tasks, t.stage = .finished
  receiver : s.receiver = .receiving ∨ s.receiver = .stopped
  listeners : ∀ l ∈ s.listeners, l = .accepting ∨ l = .stopped
  outstanding : s.outstanding = 0
  credits : s.shared.credits = config.maxPending

section Idle
variable {config : Config} {s : System}

theorem answered_of_outstanding {allowed : System → Action → Prop}
    (h : Reached (System.exec config) allowed (.start config) s) (hnone : s.outstanding = 0) :
    s.shared.Answered s.awaited := by
  have hmatched := run_matched h
  intro d hd
  rcases List.getElem?_eq_some_iff.mpr ⟨hmatched.known d (.inr (.inl hd)), rfl⟩ with ho
  refine ⟨_, ho, ?_⟩
  by_contra hvacant
  have hopen : Open Oneshot.vacant s.shared.oneshots d.resultTx := by
    simpa [Open, ho] using hvacant
  have hmem : d ∈ s.outstanding := by
    rw [hmatched.held_eq]
    exact Multiset.mem_filter.mpr ⟨hd, hopen⟩
  rw [hnone] at hmem
  exact Multiset.notMem_zero d hmem

theorem Reader.account_of_waits (r : Reader) (h : r.waits = true) : r.account = 0 := by
  cases r <;> first | rfl | cases h

theorem permits_idle (hconns : ∀ c ∈ s.conns, c.reader.account = 0 ∧ c.channel = [] ∧
      (c.delivery = .receiving ∨ c.delivery = .finished))
    (htasks : ∀ t ∈ s.tasks, t.stage = .finished)
    (hreceiver : s.receiver = .receiving ∨ s.receiver = .stopped) :
    Account.permits s.account = 0 := by
  have hpconns : s.conns.map (fun c => Account.permits c.account) = s.conns.map (fun _ => 0) := by
    apply List.map_congr_left
    intro c hc
    rcases hconns c hc with ⟨hreader, hchannel, hdelivery | hdelivery⟩ <;>
      simp [Conn.account, hreader, hchannel, hdelivery, Delivery.account]
  have hptasks : s.tasks.map (fun t => Account.permits t.account) = s.tasks.map (fun _ => 0) := by
    apply List.map_congr_left
    intro t ht
    simp [DatagramTask.account, htasks t ht]
  have hpreceiver : Account.permits s.receiver.account = 0 := by
    rcases hreceiver with hr | hr <;> simp [hr, Receiver.account]
  simp [System.account, tally_measure Account.permits rfl Account.permits_add, hpconns, hptasks,
    hpreceiver]

theorem System.AtRest.idle {allowed : System → Action → Prop}
    (h : Reached (System.exec config) allowed (.start config) s)
    (hworkers : s.workers ≠ [] ∨ s.shared.receiversGone = true)
    (hrest : s.AtRest config Action.internal) : s.Idle config := by
  rcases hrest.outstanding (hworkers.imp_right (gone_queue h)) with ⟨hqueue, hnone⟩
  have hanswered := answered_of_outstanding h hnone
  have hdelivery : ∀ c ∈ s.conns,
      (c.delivery = .receiving ∧ c.channel = [] ∧ c.reader.senderDropped = false) ∨
        c.delivery = .finished := fun c hc =>
    c.delivery_rests (hrest.delivery hc) (.inr hqueue) fun d hd =>
      hanswered d (Multiset.mem_add.mpr (.inl (mem_tally.mpr ⟨c, hc, hd⟩)))
  have hfinished : ∀ t ∈ s.tasks, t.stage = .finished := fun t ht =>
    t.rests (hrest.task ht) (.inr hqueue) fun d hd =>
      hanswered d (Multiset.mem_add.mpr (.inr (mem_tally.mpr ⟨t, ht, hd⟩)))
  have hreader : ∀ c ∈ s.conns, c.reader.waits = true ∨
      (c.reader.account = 0 ∧ s.shared.credits = 0) := fun c hc =>
    c.reader_rests (hrest.reader hc) (hdelivery c hc)
  have hchannel : ∀ c ∈ s.conns, c.channel = [] := by
    intro c hc
    rcases hdelivery c hc with ⟨-, hempty, -⟩ | hdone
    · exact hempty
    · exact ((conns_coherent h c hc).finished hdone).2
  -- nobody holds a permit, so that a reader without a credit would find one
  have hcredits : s.shared.credits = config.maxPending := by
    rcases (booked h).balanced with ⟨n, -, hbal⟩
    have hpermits := hbal.permits
    rw [permits_idle _ hfinished hrest.receiver, zero_add] at hpermits
    · exact hpermits
    · intro c hc
      refine ⟨?_, hchannel c hc, (hdelivery c hc).imp_left And.left⟩
      rcases hreader c hc with hwaits | ⟨haccount, -⟩
      · exact c.reader.account_of_waits hwaits
      · exact haccount
  refine ⟨?_, hfinished, hrest.receiver, fun l hl => hrest.listener hl, hnone, hcredits⟩
  intro c hc
  have hfree : s.shared.credits ≠ 0 := by
    have := config.pendingPos
    omega
  refine ⟨(hreader c hc).resolve_right fun hstuck => hfree hstuck.2, hchannel c hc, ?_⟩
  rcases hdelivery c hc with ⟨hreceiving, -, hopen⟩ | hdone
  · rw [hopen]
    exact hreceiving
  · rw [((conns_coherent h c hc).finished hdone).1]
    exact hdone

theorem System.Idle.atRest (h : s.Idle config) : s.AtRest config Action.internal := by
  rintro a ⟨ha, -⟩
  have hcard : s.shared.queue.length +
      (s.workers.map (fun w => (w.toList : Multiset SyslogDelivery))).sum.card = 0 := by
    rw [← Multiset.coe_card, ← Multiset.card_add]
    exact congrArg Multiset.card h.outstanding
  cases a with
  | listener i input =>
    cases input <;> try cases ha
    rw [System.exec, Option.bind_eq_none_iff]
    intro l hl
    rcases h.listeners l (List.mem_of_getElem? hl) with rfl | rfl <;> rfl
  | reader i input =>
    cases input <;> try cases ha
    rw [System.exec, Option.bind_eq_none_iff]
    intro c hc
    have hwaits := (h.conns c (List.mem_of_getElem? hc)).1
    rw [Option.map_eq_none_iff]
    unfold Conn.readerStep
    cases hr : c.reader <;> rw [hr] at hwaits <;> first | rfl | cases hwaits
  | delivery i =>
    rw [System.exec, Option.bind_eq_none_iff]
    intro c hc
    rcases h.conns c (List.mem_of_getElem? hc) with ⟨-, hchannel, hdelivery⟩
    cases hdropped : c.reader.senderDropped <;> rw [hdropped] at hdelivery <;>
      simp [Conn.deliveryStep, hdelivery, hchannel, hdropped]
  | receiver input =>
    cases input <;> try cases ha
    rw [System.exec, Option.map_eq_none_iff]
    rcases h.receiver with hr | hr <;> rw [hr] <;> rfl
  | task i =>
    rw [System.exec, Option.bind_eq_none_iff]
    intro task ht
    rw [Option.map_eq_none_iff, DatagramTask.step, h.tasks task (List.mem_of_getElem? ht)]
  | worker move =>
    cases move with
    | take k =>
      have hqueue : s.shared.queue = [] := List.length_eq_zero_iff.mp (by omega)
      rw [System.exec, System.workerStep, hqueue]
      cases s.workers[k]? with
      | none => rfl
      | some w => cases w <;> rfl
    | answer k result =>
      rw [System.exec, System.workerStep]
      rcases hk : s.workers[k]? with _ | _ | d
      · rfl
      · rfl
      · rcases tally_set (fun w => (w.toList : Multiset SyslogDelivery)) hk none
          with ⟨rest, hold, -⟩
        rw [hold] at hcard
        simp at hcard
    | hire | quit | dropReceivers => cases ha
  | drain | elsewhere => cases ha

theorem System.Idle.nothing_between (h : s.Idle config) : ¬ s.Between := by
  rintro ((⟨c, hc, hreleases⟩ | ⟨t, ht, hstage⟩) | ⟨c, hc, henters⟩ | henters)
  · rcases h.conns c hc with ⟨hwaits, -, hdelivery⟩
    rcases hreleases with hr | hd
    · cases hpc : c.reader <;> simp_all [Reader.waits, Reader.releases]
    · rw [hdelivery] at hd
      split_ifs at hd <;> cases hd
  · rw [h.tasks t ht] at hstage
    cases hstage
  · have hwaits := (h.conns c hc).1
    cases hpc : c.reader <;> simp_all [Reader.waits, Reader.enters]
  · rcases h.receiver with hr | hr <;> rw [hr] at henters <;> cases henters

end Idle

/-- With a worker, or none for good, the tasks of the process can only come to a stop together:
no task can take a step by itself exactly when every task waits for the outside or has ended, no
message is left anywhere and all credits are free. Every message that has come in is then counted
under its outcome and nothing is pending, unless a drain has timed out. -/
theorem rest_iff_idle (config : Config) (s : System) (h : s.Reachable config)
    (hworkers : s.workers ≠ [] ∨ s.shared.receiversGone = true) :
    (s.AtRest config Action.internal ↔ s.Idle config) ∧
    (s.AtRest config Action.internal → s.drain.late = false →
      s.shared.counters.pending = 0 ∧
        s.shared.numbered + s.shared.received = s.shared.counters.decided) := by
  have hidle : s.AtRest config Action.internal → s.Idle config := fun hrest => hrest.idle h hworkers
  refine ⟨⟨hidle, fun hs => hs.atRest⟩, fun hrest hlate => ?_⟩
  have hbooked := booked h
  have hpending : s.shared.counters.pending = 0 := by
    rcases hbooked.balanced with ⟨n, -, hbal⟩
    have hpermits := hbal.permits
    have hcredits : s.shared.pool.free = config.maxPending := (hidle hrest).credits
    have hgauge := (hbooked.onTime hlate).2
    have hlive := gauge_le_live (conns_coherent h)
    have hheld := live_le_permits s
    have hpool : s.shared.pool.gauge = s.shared.counters.pending := rfl
    omega
  have hconserved := hbooked.conserved hlate (hidle hrest).nothing_between
  exact ⟨hpending, by omega⟩

/-- A message has been accepted, and the connection is still open. -/
theorem rest_iff_idle_accepted :
    ∃ s : System, s.Reachable .small ∧ s.shared.counters.messagesDelivered = 1 ∧
      s.AtRest .small Action.internal ∧ s.shared.counters.pending = 0 := by
  have hrun : ∃ s : System, s.Reachable .small ∧ s.shared.counters.messagesDelivered = 1 ∧
      s.drain.late = false ∧ s.workers ≠ [] ∧ s.outstanding = 0 ∧
      (∀ c ∈ s.conns, c.reader.waits = true ∧ c.channel = [] ∧
        c.delivery = if c.reader.senderDropped then .finished else .receiving) ∧
      (s.tasks = [] ∧ s.receiver = .stopped ∧ s.listeners = [.accepting] ∧ s.shared.credits = 2) :=
    exists_reached
      (serving [120, 10] 6 ++ [.delivery 0, .delivery 0, .worker .hire, .worker (.take 0),
        .worker (.answer 0 .accepted)] ++ List.replicate 4 (.delivery 0))
      (by decide +kernel)
  rcases hrun with ⟨s, hs, hdelivered, hlate, hworkers, hnone, hconns, htasks, hreceiver,
    hlisteners, hcredits⟩
  have hidle : s.Idle .small :=
    ⟨hconns, by simp [htasks], .inr hreceiver, by simp [hlisteners], hnone, hcredits⟩
  rcases rest_iff_idle .small s hs (.inl hworkers) with ⟨hiff, hsettled⟩
  have hrest := hiff.mpr hidle
  exact ⟨s, hs, hdelivered, hrest, (hsettled hrest hlate).1⟩

end HyperRuby.Dispatch
