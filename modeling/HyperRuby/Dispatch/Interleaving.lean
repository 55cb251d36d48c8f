import HyperRuby.Dispatch.Listeners

/-! # Steps of the whole system

What an action can do, component by component. Whatever one task does, shutdown
is not undone and a verdict once given stays, so a property of one connection
that rests on these alone is kept by everything else in the process.
-/
namespace HyperRuby.Dispatch
open Framing Library

namespace Shared

/-- A later state of what the tasks share. -/
structure Later (sh sh' : Shared) : Prop where
  cancelled : sh.cancelled = true → sh'.cancelled = true
  verdicts : ∀ (i : ℕ) (result : HandlerResult),
    sh.oneshots[i]? = some (.value result) → sh'.oneshots[i]? = some (.value result)

theorem Later.refl (sh : Shared) : sh.Later sh := ⟨id, fun _ _ => id⟩

theorem Later.trans {a b c : Shared} (h : a.Later b) (h' : b.Later c) : a.Later c :=
  ⟨fun hc => h'.cancelled (h.cancelled hc),
    fun i result hi => h'.verdicts i result (h.verdicts i result hi)⟩

theorem later_push (sh : Shared) (message : SyslogMessage) : sh.Later (sh.push message) := by
  refine ⟨id, ?_⟩
  intro i result hi
  exact (List.getElem?_append_left (List.getElem?_eq_some_iff.mp hi).1).trans hi

theorem later_answer (sh : Shared) (d : SyslogDelivery) {change : Oneshot → Oneshot}
    (hkeep : ∀ result, change (.value result) = .value result) : sh.Later (sh.answer d change) := by
  refine ⟨id, ?_⟩
  intro i result hi
  simp only [answer, List.getElem?_modify, hi]
  by_cases hd : d.resultTx = i
  · simp [hd, hkeep]
  · simp [hd]

theorem foldl_dropSender (queue : List SyslogDelivery) (sh : Shared) :
    ∃ oneshots, queue.foldl (fun sh d => sh.answer d .dropSender) sh =
        { sh with oneshots := oneshots } ∧ sh.Later { sh with oneshots := oneshots } := by
  induction queue generalizing sh with
  | nil => exact ⟨sh.oneshots, rfl, .refl sh⟩
  | cons d queue ih =>
    rcases ih (sh.answer d .dropSender) with ⟨oneshots, heq, hlater⟩
    exact ⟨oneshots, heq, (sh.later_answer d (fun _ => rfl)).trans hlater⟩

end Shared

section Later
variable {config : Config} {sh sh' : Shared}

theorem DeliverStep.later {p : PendingMessage} {attempt : ℕ} {stage : Deliver}
    {progress : Progress} (h : DeliverStep config sh p attempt stage sh' progress) :
    sh.Later sh' := by
  cases h with
  | pushed => exact sh.later_push _
  | counted result => cases result <;> exact ⟨id, fun _ _ => id⟩
  | gone | full | answered | unanswered => exact .refl sh

theorem ReaderStep.later {c c' : Conn} (h : ReaderStep config sh c sh' c') : sh.Later sh' := by
  cases h <;> exact ⟨id, fun _ _ => id⟩

theorem DeliveryStep.later {c c' : Conn} (h : DeliveryStep config sh c sh' c') : sh.Later sh' := by
  cases h with
  | delivered _ _ _ _ _ _ step => exact step.later
  | _ => exact ⟨id, fun _ _ => id⟩

theorem TaskStep.later {t t' : DatagramTask} (h : TaskStep config sh t sh' t') : sh.Later sh' := by
  cases h with
  | delivered _ _ _ _ step => exact step.later
  | _ => exact ⟨id, fun _ _ => id⟩

theorem ReceiverStep.later {r r' : Receiver} {spawned : Option DatagramTask}
    (h : ReceiverStep config sh r sh' r' spawned) : sh.Later sh' := by
  cases h <;> exact ⟨id, fun _ _ => id⟩

theorem ListenerStep.later {l l' : Listener} {spawned : Option Conn}
    (h : ListenerStep config sh l sh' l' spawned) : sh.Later sh' := by
  cases h <;> exact ⟨id, fun _ _ => id⟩

end Later

theorem workerStep_step {s t : System} {move : WorkerMove} (h : s.workerStep move = some t) :
    ∃ queue gone oneshots workers,
      t = { s with
        shared := { s.shared with queue := queue, receiversGone := gone, oneshots := oneshots }
        workers := workers } ∧ s.shared.Later t.shared := by
  cases move with
  | hire =>
    simp only [System.workerStep] at h
    split_ifs at h
    cases h
    exact ⟨_, _, _, _, rfl, .refl _⟩
  | take k =>
    simp only [System.workerStep] at h
    split at h
    · cases h
      exact ⟨_, _, _, _, rfl, ⟨id, fun _ _ => id⟩⟩
    · cases h
  | answer k result =>
    simp only [System.workerStep] at h
    split at h
    · cases h
      exact ⟨_, _, _, _, rfl, s.shared.later_answer _ (fun _ => rfl)⟩
    · cases h
  | quit k =>
    simp only [System.workerStep] at h
    split at h
    · cases h
      exact ⟨_, _, _, _, rfl, s.shared.later_answer _ (fun _ => rfl)⟩
    · cases h
      exact ⟨_, _, _, _, rfl, .refl _⟩
    · cases h
  | dropReceivers =>
    rcases s.shared.foldl_dropSender s.shared.queue with ⟨oneshots, heq, hlater⟩
    simp only [System.workerStep, heq] at h
    split_ifs at h
    cases h
    exact ⟨_, _, _, _, rfl, hlater.cancelled, hlater.verdicts⟩

/-- Everything an action can do. -/
inductive SystemStep (config : Config) (s : System) : Action → System → Prop where
  | listener (i : ℕ) (input : Listener.Input) (l : Listener) (sh : Shared) (l' : Listener)
      (spawned : Option Conn) (found : s.listeners[i]? = some l)
      (step : ListenerStep config s.shared l sh l' spawned) :
      SystemStep config s (.listener i input)
        { s with
          shared := sh, listeners := s.listeners.set i l', conns := s.conns ++ spawned.toList }
  | reader (i : ℕ) (input : Conn.Input) (c : Conn) (sh : Shared) (c' : Conn)
      (found : s.conns[i]? = some c) (step : ReaderStep config s.shared c sh c') :
      SystemStep config s (.reader i input) { s with shared := sh, conns := s.conns.set i c' }
  | delivery (i : ℕ) (c : Conn) (sh : Shared) (c' : Conn) (found : s.conns[i]? = some c)
      (step : DeliveryStep config s.shared c sh c') :
      SystemStep config s (.delivery i) { s with shared := sh, conns := s.conns.set i c' }
  | receiver (input : Receiver.Input) (sh : Shared) (r : Receiver) (spawned : Option DatagramTask)
      (step : ReceiverStep config s.shared s.receiver sh r spawned) :
      SystemStep config s (.receiver input)
        { s with shared := sh, receiver := r, tasks := s.tasks ++ spawned.toList }
  | task (i : ℕ) (t : DatagramTask) (sh : Shared) (t' : DatagramTask)
      (found : s.tasks[i]? = some t) (step : TaskStep config s.shared t sh t') :
      SystemStep config s (.task i) { s with shared := sh, tasks := s.tasks.set i t' }
  | worker (move : WorkerMove) (queue : List SyslogDelivery) (gone : Bool)
      (oneshots : List Oneshot) (workers : List (Option SyslogDelivery))
      (later : s.shared.Later
        { s.shared with queue := queue, receiversGone := gone, oneshots := oneshots }) :
      SystemStep config s (.worker move)
        { s with
          shared := { s.shared with queue := queue, receiversGone := gone, oneshots := oneshots }
          workers := workers }
  | stopAccepting :
      SystemStep config s (.drain .stopAccepting)
        { s with shared := { s.shared with cancelled := true } }
  | wait (idle : s.drain = .idle) :
      SystemStep config s (.drain .wait)
        { s with shared := { s.shared with cancelled := true }, drain := .waiting }
  | complete (waiting : s.drain = .waiting) (tracked : s.Tracked) :
      SystemStep config s (.drain .complete) { s with drain := .completed }
  | timeout (waiting : s.drain = .waiting) :
      SystemStep config s (.drain .timeout) { s with drain := .expired }
  | swap (expired : s.drain = .expired) :
      SystemStep config s (.drain .swap)
        { s with
          shared := s.shared.count (fun c => { c with pending := 0 })
          drain := .swapped s.shared.counters.pending
          swept := Account.onGauge s.account }
  | abandon (n : ℕ) (swapped : s.drain = .swapped n) :
      SystemStep config s (.drain .abandon)
        { s with
          shared := s.shared.count (fun c =>
            { c with abandonedAtShutdown := c.abandonedAtShutdown + n })
          drain := .timedOut }
  | elsewhere :
      SystemStep config s .elsewhere
        { s with
          shared := { s.shared with nextMessageId := s.shared.nextMessageId + 1 }
          foreign := s.foreign ++ [s.shared.nextMessageId] }

theorem drainStep_step {config : Config} {s t : System} {move : DrainMove}
    (h : s.drainStep move = some t) : SystemStep config s (.drain move) t := by
  cases move with
  | stopAccepting =>
    cases h
    exact .stopAccepting
  | wait =>
    simp only [System.drainStep] at h
    split_ifs at h with hidle
    cases h
    exact .wait hidle
  | complete =>
    simp only [System.drainStep] at h
    split_ifs at h with hdone
    cases h
    exact .complete hdone.1 hdone.2
  | timeout =>
    simp only [System.drainStep] at h
    split_ifs at h with hlate
    cases h
    exact .timeout hlate.1
  | swap =>
    simp only [System.drainStep] at h
    split_ifs at h with hexpired
    cases h
    exact .swap hexpired
  | abandon =>
    simp only [System.drainStep] at h
    split at h
    case h_1 n hswapped =>
      cases h
      exact .abandon n hswapped
    case h_2 => cases h

theorem exec_step {config : Config} {s t : System} {a : Action}
    (h : System.exec config s a = some t) : SystemStep config s a t := by
  cases a with
  | listener i input =>
    rcases Option.bind_eq_some_iff.mp h with ⟨l, hfound, h⟩
    rcases Option.map_eq_some_iff.mp h with ⟨⟨sh, l', spawned⟩, hstep, hout⟩
    cases hout
    exact .listener i input l sh l' spawned hfound (listenerStep_step hstep)
  | reader i input =>
    rcases Option.bind_eq_some_iff.mp h with ⟨c, hfound, h⟩
    rcases Option.map_eq_some_iff.mp h with ⟨⟨sh, c'⟩, hstep, hout⟩
    cases hout
    exact .reader i input c sh c' hfound (readerStep_step hstep)
  | delivery i =>
    rcases Option.bind_eq_some_iff.mp h with ⟨c, hfound, h⟩
    rcases Option.map_eq_some_iff.mp h with ⟨⟨sh, c'⟩, hstep, hout⟩
    cases hout
    exact .delivery i c sh c' hfound (deliveryStep_step hstep)
  | receiver input =>
    rcases Option.map_eq_some_iff.mp h with ⟨⟨sh, r, spawned⟩, hstep, hout⟩
    cases hout
    exact .receiver input sh r spawned (receiverStep_step hstep)
  | task i =>
    rcases Option.bind_eq_some_iff.mp h with ⟨task, hfound, h⟩
    rcases Option.map_eq_some_iff.mp h with ⟨⟨sh, task'⟩, hstep, hout⟩
    cases hout
    exact .task i task sh task' hfound (taskStep_step hstep)
  | worker move =>
    rcases workerStep_step h with ⟨queue, gone, oneshots, workers, rfl, hlater⟩
    exact .worker move queue gone oneshots workers hlater
  | drain move => exact drainStep_step h
  | elsewhere =>
    cases h
    exact .elsewhere

theorem SystemStep.later {config : Config} {s t : System} {a : Action}
    (h : SystemStep config s a t) : s.shared.Later t.shared := by
  cases h with
  | listener _ _ _ _ _ _ _ step => exact step.later
  | reader _ _ _ _ _ _ step => exact step.later
  | delivery _ _ _ _ _ step => exact step.later
  | receiver _ _ _ _ step => exact step.later
  | task _ _ _ _ _ step => exact step.later
  | worker _ _ _ _ _ later => exact later
  | stopAccepting | wait => exact ⟨fun _ => rfl, fun _ _ => id⟩
  | complete | timeout | swap | abandon | elsewhere => exact ⟨id, fun _ _ => id⟩

section Connections
variable {config : Config} {allowed : System → Action → Prop}

/-- A property of connections that survives later shared states and the steps of the
connection's own two tasks holds of all connections in every state reached. -/
theorem conns_invariant (inv : Shared → Conn → Prop)
    (hstart : ∀ sh peer, inv sh (.start config peer))
    (hlater : ∀ sh sh' c, sh.Later sh' → inv sh c → inv sh' c)
    (hreader : ∀ sh c sh' c', ReaderStep config sh c sh' c' → inv sh c → inv sh' c')
    (hdelivery : ∀ sh c sh' c', DeliveryStep config sh c sh' c' → inv sh c → inv sh' c')
    {s : System} (h : Reached (System.exec config) allowed (.start config) s) :
    ∀ c ∈ s.conns, inv s.shared c := by
  refine h.invariant (fun s => ∀ c ∈ s.conns, inv s.shared c) (by simp [System.start]) ?_
  intro s a t _ _ ih he
  have hl := (exec_step he).later
  have hold : ∀ c ∈ s.conns, inv t.shared c := fun c hc => hlater _ _ _ hl (ih c hc)
  cases exec_step he with
  | listener _ _ _ _ _ spawned _ step =>
    intro c hc
    rcases List.mem_append.mp hc with hc | hnew
    · exact hold c hc
    · rcases step.fresh hnew with ⟨peer, rfl⟩
      exact hstart _ peer
  | reader i _ c sh c' found step =>
    exact forall_mem_set hold (hreader _ _ _ _ step (ih c (List.mem_of_getElem? found)))
  | delivery i c sh c' found step =>
    exact forall_mem_set hold (hdelivery _ _ _ _ step (ih c (List.mem_of_getElem? found)))
  | receiver | task | worker | stopAccepting | wait | complete | timeout | swap | abandon
  | elsewhere =>
    exact hold

end Connections

/-- A hand-over to the delivery task has failed. -/
def Reader.unsuccessful : Reader → Bool
  | .unsent _ | .abandoning _ | .releasing _ => true
  | _ => false

/-- The reader and its delivery task agree on how far the connection has got. -/
structure Conn.Coherent (c : Conn) : Prop where
  proxy : c.reader = .proxy → c.delivery = .receiving ∧ c.channel = []
  finished : c.delivery = .finished → c.reader.senderDropped = true ∧ c.channel = []
  closed : c.reader = .closing ∨ c.reader = .closed ∨ c.reader = .done → c.delivery = .finished
  handedOver : c.reader.unsuccessful = false

namespace Conn.Coherent
variable {config : Config} {sh sh' : Shared} {c c' : Conn}

theorem start (peer : Option String) : (Conn.start config peer).Coherent := by
  cases hp : config.proxyProtocol <;>
    exact ⟨by simp [Conn.start, hp], by simp [Conn.start], by simp [Conn.start, hp],
      by simp [Conn.start, hp, Reader.unsuccessful]⟩

theorem reader (hc : c.Coherent) (h : ReaderStep config sh c sh' c') : c'.Coherent := by
  rcases hc with ⟨hproxy, hfinished, hclosed, hhanded⟩
  cases h with
  | unsent p pc gone =>
    -- the receiver of the channel is gone only once the sender was dropped
    have hdropped := (hfinished gone).1
    rw [pc] at hdropped
    cases hdropped
  | decoded | rejected =>
    constructor <;> split_ifs <;> simp_all [Reader.senderDropped, Reader.unsuccessful]
  | _ => constructor <;> simp_all [Reader.senderDropped, Reader.unsuccessful]

theorem delivery (hc : c.Coherent) (h : DeliveryStep config sh c sh' c') : c'.Coherent := by
  rcases hc with ⟨hproxy, hfinished, hclosed, hhanded⟩
  cases h with
  | delivered p attempt stage _ progress pc =>
    rcases c.resume_frame p attempt progress with ⟨delivery, _, _, hresume, hcurrent⟩
    have hbusy : delivery ≠ .finished := by
      rintro rfl
      cases hcurrent
    rw [hresume]
    constructor <;> simp_all
  | finished pc empty dropped =>
    have hreader : c.reader ≠ .proxy := by
      intro hp
      rw [hp] at dropped
      cases dropped
    constructor <;> simp_all
  | _ => constructor <;> simp_all

end Conn.Coherent

/-- In every state of every run, and whatever else goes on in the process. -/
theorem conns_coherent {config : Config} {allowed : System → Action → Prop} {s : System}
    (h : Reached (System.exec config) allowed (.start config) s) : ∀ c ∈ s.conns, c.Coherent :=
  conns_invariant (fun _ c => c.Coherent) (fun _ peer => .start peer) (fun _ _ _ _ hc => hc)
    (fun _ _ _ _ step hc => hc.reader step) (fun _ _ _ _ step hc => hc.delivery step) h

end HyperRuby.Dispatch
