import HyperRuby.Dispatch.Idle

/-! # A shutdown comes to an end

After the token is cancelled the process finishes what it has framed. How much
is left to do is counted in steps: every step of its own takes something off,
so that it comes to rest, and at rest no tracked task is left.
-/
namespace HyperRuby.Dispatch
open Framing Library

/-- The steps of a process that shuts down and hears nothing more from its peers. The wait for a
PROXY header has a limit of its own and does not see the shutdown. -/
def Action.settling : Action → Bool
  | .listener _ .cancelled | .receiver .cancelled => true
  | .reader _ .cancelled | .reader _ .noProxy => true
  | a => a.internal

section Left

/-- Steps left in a call of `deliver`, with the two that a worker takes for it. -/
def Deliver.left : Deliver → ℕ
  | .pushing => 5
  | .awaiting _ => 2
  | .counting _ => 1

/-- A refused message is not held back for another attempt any more. -/
def Delivery.left : Delivery → ℕ
  | .finished => 0
  | .receiving => 1
  | .dropping _ => 2
  | .releasing _ => 3
  | .abandoning _ => 4
  | .checking _ _ => 5
  | .delivering _ _ stage => 5 + stage.left
  | .sleeping _ _ => 11

def DatagramStage.left : DatagramStage → ℕ
  | .finished => 0
  | .freeing => 1
  | .releasing => 2
  | .dropping => 3
  | .delivering stage => 3 + stage.left

/-- A reader that decodes may find a message for each unit of weight that its buffer has. -/
def Reader.left (weight : ℕ) : Reader → ℕ
  | .done | .panicked => 0
  | .closed => 1
  | .closing => 2
  | .joining | .proxy => 3
  | .releasing _ | .reading => 4
  | .abandoning _ => 5
  | .unsent _ => 6
  | .decoding => 15 * weight + 5
  | .sending _ => 15 * weight + 16
  | .gauging _ => 15 * weight + 17
  | .numbering _ _ => 15 * weight + 18
  | .acquiring _ _ => 15 * weight + 19

def Conn.left (c : Conn) : ℕ :=
  c.reader.left (c.framer.other.weight c.buffer) + (10 * c.channel.length + c.delivery.left)

def Receiver.left : Receiver → ℕ
  | .stopped => 0
  | .receiving => 1
  | .truncated | .uncredited => 2
  | .spawning _ => 10
  | .gauging _ => 11
  | .numbering _ _ _ => 12
  | .crediting _ _ _ => 13

def Listener.left : Listener → ℕ
  | .stopped => 0
  | .accepting => 1
  | .refused => 2
  | .refusing => 3
  | .spawning _ => 23
  | .opening _ => 24
  | .counted _ _ => 25

/-- Steps left until the process is at rest. -/
def System.left (s : System) : ℕ :=
  (s.listeners.map Listener.left).sum + (s.conns.map Conn.left).sum + s.receiver.left +
    (s.tasks.map (fun t => t.stage.left)).sum +
    (2 * s.shared.queue.length + (s.workers.map (fun w => w.toList.length)).sum)

end Left

section Tasks
variable {config : Config} {sh sh' : Shared} {c c' : Conn} {p : PendingMessage} {attempt : ℕ}
  {stage : Deliver} {progress : Progress}

/-- A step of `deliver` takes something off, counting what the delivery task does with its outcome
and what a worker does with the delivery. -/
theorem DeliverStep.left (h : DeliverStep config sh p attempt stage sh' progress)
    (hfull : progress ≠ .full) :
    (c.resume p attempt progress).delivery.left + 2 * sh'.queue.length <
      5 + stage.left + 2 * sh.queue.length := by
  cases h with
  | full => exact absurd rfl hfull
  | pushed room =>
    simp only [Conn.resume, Delivery.left, Deliver.left, Shared.push, List.length_append,
      List.length_singleton]
    omega
  | counted result =>
    cases result <;>
      simp [countVerdict, Conn.resume, Delivery.left, Deliver.left, Shared.count]
  | gone | answered | unanswered => simp [Conn.resume, Delivery.left, Deliver.left]

theorem DeliverStep.left_task {t : DatagramTask}
    (h : DeliverStep config sh t.pending 1 stage sh' progress) (hfull : progress ≠ .full) :
    (t.resume progress).stage.left + 2 * sh'.queue.length <
      3 + stage.left + 2 * sh.queue.length := by
  cases h with
  | full => exact absurd rfl hfull
  | pushed room =>
    simp only [DatagramTask.resume, DatagramStage.left, Deliver.left, Shared.push,
      List.length_append, List.length_singleton]
    omega
  | counted result =>
    cases result <;>
      simp [countVerdict, DatagramTask.resume, DatagramStage.left, Deliver.left, Shared.count]
  | gone | answered | unanswered => simp [DatagramTask.resume, DatagramStage.left, Deliver.left]

theorem DeliveryStep.left (h : DeliveryStep config sh c sh' c') (hc : sh.cancelled = true) :
    c'.left + 2 * sh'.queue.length < c.left + 2 * sh.queue.length ∨ (c' = c ∧ sh' = sh) := by
  cases h with
  | delivered p attempt stage _ progress pc step =>
    by_cases hfull : progress = .full
    · right
      subst hfull
      cases step
      exact ⟨by rw [Conn.resume, ← pc], rfl⟩
    · left
      have hfall := step.left (c := c) hfull
      rcases c.resume_frame p attempt progress with ⟨delivery, gone, block, hresume, -⟩
      have hbefore : c.delivery.left = 5 + stage.left := by rw [pc, Delivery.left]
      rw [hresume] at hfall ⊢
      dsimp only [Conn.left] at hfall ⊢
      omega
  | held p attempt pc running =>
    rw [hc] at running
    cases running
  | received p channel pc front | skipped p channel pc front =>
    left
    simp only [Conn.left, pc, front, Delivery.left, Deliver.left, List.length_cons]
    omega
  | finished pc | gaveUp p attempt pc | woke p attempt pc | freed p pc =>
    left
    simp only [Conn.left, pc, Delivery.left, Deliver.left]
    omega
  | abandoned p pc | released p pc =>
    left
    simp only [Conn.left, pc, Delivery.left, Shared.count]
    omega

theorem TaskStep.left {t t' : DatagramTask} (h : TaskStep config sh t sh' t') :
    t'.stage.left + 2 * sh'.queue.length < t.stage.left + 2 * sh.queue.length ∨
      (t' = t ∧ sh' = sh) := by
  cases h with
  | delivered stage _ progress pc step =>
    by_cases hfull : progress = .full
    · right
      subst hfull
      cases step
      exact ⟨by rw [DatagramTask.resume, ← pc], rfl⟩
    · left
      rw [pc]
      exact step.left_task hfull
  | dropped pc | released pc | freed pc =>
    left
    simp only [pc, DatagramStage.left, Shared.count]
    omega

theorem readerStep_left {i : ℕ} {input : Conn.Input}
    (hin : (Action.reader i input).settling = true)
    (h : c.readerStep config sh input = some (sh', c')) :
    c'.left < c.left ∧ sh'.queue = sh.queue := by
  have hquiet : (∃ now, input = .go now) ∨ input = .cancelled ∨ input = .noProxy := by
    cases input <;> simp_all [Action.settling, Action.internal]
  cases readerStep_step h with
  | headed _ pc | proxied _ _ pc =>
    rcases hquiet with ⟨now, rfl⟩ | rfl | rfl <;> simp [Conn.readerStep, pc, Conn.proxyStep] at h
  | read chunk pc =>
    rcases hquiet with ⟨now, rfl⟩ | rfl | rfl <;> simp [Conn.readerStep, pc, Conn.readStep] at h
  | ended pc =>
    rcases hquiet with ⟨now, rfl⟩ | rfl | rfl <;> simp [Conn.readerStep, pc, Conn.readStep] at h
  | framed message framer buffer now pc call =>
    have hlt := Conn.call_progress call (by simp) (by simp)
    refine ⟨?_, rfl⟩
    simp only [Conn.left, pc, Reader.left]
    omega
  | decoded framer buffer pc call =>
    refine ⟨?_, rfl⟩
    simp only [Conn.left, pc]
    split_ifs <;> simp only [Reader.left] <;> omega
  | rejected error framer buffer pc call =>
    refine ⟨?_, rfl⟩
    simp only [Conn.left, pc]
    split_ifs with hfatal
    · simp only [Reader.left]
      omega
    · have hlt := Conn.call_progress call (by simp) (by simpa using hfatal)
      simp only [Reader.left]
      omega
  | badProxy pc | noProxy pc =>
    refine ⟨?_, rfl⟩
    simp only [Conn.left, pc, Reader.left, Delivery.left]
    omega
  | sent p pc =>
    refine ⟨?_, rfl⟩
    simp only [Conn.left, pc, Reader.left, List.length_append, List.length_singleton]
    omega
  | panicked _ pc | stopped pc | acquired _ _ pc | numbered _ _ pc | gauged _ pc | unsent _ pc
  | freed _ pc | abandoned _ pc | released _ pc | joined pc | closing pc | closed pc =>
    refine ⟨?_, rfl⟩
    simp only [Conn.left, pc, Reader.left]
    omega

theorem start_left (peer : Option String) : (Conn.start config peer).left ≤ 21 := by
  cases hp : config.proxyProtocol <;>
    simp [Conn.left, Conn.start, hp, Reader.left, Delivery.left, Framer.new,
      LinesCodec.weight, LinesCodec.new]

theorem listenerStep_left {i : ℕ} {l l' : Listener} {input : Listener.Input}
    {spawned : Option Conn} (hin : (Action.listener i input).settling = true)
    (h : l.step config sh input = some (sh', l', spawned)) :
    l'.left + (spawned.toList.map Conn.left).sum < l.left ∧ sh'.queue = sh.queue := by
  cases listenerStep_step h with
  | accepted peer =>
    cases input <;> simp_all [Action.settling, Action.internal, Listener.step]
  | spawned peer =>
    have hstart : (Conn.start config peer).left ≤ 21 := start_left peer
    refine ⟨?_, rfl⟩
    simp only [Listener.left, Option.toList_some, List.map_cons, List.map_nil, List.sum_cons,
      List.sum_nil]
    omega
  | _ => exact ⟨by simp [Listener.left], rfl⟩

theorem receiverStep_left {r r' : Receiver} {input : Receiver.Input}
    {spawned : Option DatagramTask} (hin : (Action.receiver input).settling = true)
    (h : r.step config sh input = some (sh', r', spawned)) :
    r'.left + (spawned.toList.map (fun t => t.stage.left)).sum < r.left ∧
      sh'.queue = sh.queue := by
  cases receiverStep_step h with
  | cut | received =>
    cases input <;> simp_all [Action.settling, Action.internal, Receiver.step]
  | _ => exact ⟨by simp [Receiver.left, DatagramStage.left, Deliver.left], rfl⟩

end Tasks

section System
variable {config : Config} {s t : System} {a : Action}

theorem exec_left (hc : s.shared.cancelled = true) (ha : a.settling = true)
    (he : s.exec config a = some t) : t.left < s.left ∨ t = s := by
  cases a with
  | listener i input =>
    rcases Option.bind_eq_some_iff.mp he with ⟨l, hfound, hrest⟩
    rcases Option.map_eq_some_iff.mp hrest with ⟨⟨sh, l', spawned⟩, hstep, rfl⟩
    rcases listenerStep_left ha hstep with ⟨hlt, hqueue⟩
    rcases tally_set Listener.left hfound l' with ⟨rest, hold, hnew⟩
    left
    simp only [System.left, hold, hnew, hqueue, List.map_append, List.sum_append]
    omega
  | reader i input =>
    rcases Option.bind_eq_some_iff.mp he with ⟨c, hfound, hrest⟩
    rcases Option.map_eq_some_iff.mp hrest with ⟨⟨sh, c'⟩, hstep, rfl⟩
    rcases readerStep_left ha hstep with ⟨hlt, hqueue⟩
    rcases tally_set Conn.left hfound c' with ⟨rest, hold, hnew⟩
    left
    simp only [System.left, hold, hnew, hqueue]
    omega
  | delivery i =>
    rcases Option.bind_eq_some_iff.mp he with ⟨c, hfound, hrest⟩
    rcases Option.map_eq_some_iff.mp hrest with ⟨⟨sh, c'⟩, hstep, rfl⟩
    rcases (deliveryStep_step hstep).left hc with hlt | ⟨rfl, rfl⟩
    · rcases tally_set Conn.left hfound c' with ⟨rest, hold, hnew⟩
      left
      simp only [System.left, hold, hnew]
      omega
    · right
      rcases List.getElem?_eq_some_iff.mp hfound with ⟨hi, rfl⟩
      rw [List.set_getElem_self]
  | receiver input =>
    rcases Option.map_eq_some_iff.mp he with ⟨⟨sh, r, spawned⟩, hstep, rfl⟩
    rcases receiverStep_left ha hstep with ⟨hlt, hqueue⟩
    left
    simp only [System.left, hqueue, List.map_append, List.sum_append]
    omega
  | task i =>
    rcases Option.bind_eq_some_iff.mp he with ⟨task, hfound, hrest⟩
    rcases Option.map_eq_some_iff.mp hrest with ⟨⟨sh, task'⟩, hstep, rfl⟩
    rcases (taskStep_step hstep).left with hlt | ⟨rfl, rfl⟩
    · rcases tally_set (fun t : DatagramTask => t.stage.left) hfound task' with ⟨rest, hold, hnew⟩
      left
      simp only [System.left, hold, hnew]
      omega
    · right
      rcases List.getElem?_eq_some_iff.mp hfound with ⟨hi, rfl⟩
      rw [List.set_getElem_self]
  | worker move =>
    left
    cases workerStep_cases he with
    | took k d queue idle front =>
      rcases tally_set (fun w : Option SyslogDelivery => w.toList.length) idle (some d)
        with ⟨rest, hold, hnew⟩
      simp only [System.left, hold, hnew, front, List.length_cons, Option.toList_some,
        Option.toList_none, List.length_nil]
      omega
    | answered k result d busy =>
      rcases tally_set (fun w : Option SyslogDelivery => w.toList.length) busy none
        with ⟨rest, hold, hnew⟩
      simp only [System.left, hold, hnew, Shared.answer, List.length_cons, Option.toList_some,
        Option.toList_none, List.length_nil]
      omega
    | hired | dropped | left | gone => cases ha
  | drain | elsewhere => cases ha

/-- A shutdown that the workers see through: they stay, or are gone for good. -/
structure System.ShuttingDown (config : Config) (s : System) : Prop where
  reached : s.Reachable config
  cancelled : s.shared.cancelled = true
  workers : s.workers ≠ [] ∨ s.shared.receiversGone = true

theorem exec_workers (ha : a.settling = true) (he : s.exec config a = some t) :
    t.workers.length = s.workers.length ∧
      t.shared.receiversGone = s.shared.receiversGone := by
  cases a with
  | worker move =>
    cases workerStep_cases he with
    | took | answered => exact ⟨List.length_set, rfl⟩
    | hired | dropped | left | gone => cases ha
  | listener i input =>
    cases exec_step he with
    | listener _ _ _ _ _ _ _ step => cases step <;> exact ⟨rfl, rfl⟩
  | reader i input =>
    cases exec_step he with
    | reader _ _ _ _ _ _ step => cases step <;> exact ⟨rfl, rfl⟩
  | delivery i =>
    rcases Option.bind_eq_some_iff.mp he with ⟨c, -, hrest⟩
    rcases Option.map_eq_some_iff.mp hrest with ⟨⟨sh, c'⟩, hstep, rfl⟩
    exact ⟨rfl, (Conn.deliveryStep_shut hstep).1⟩
  | receiver input =>
    cases exec_step he with
    | receiver _ _ _ _ step =>
      refine ⟨rfl, ?_⟩
      generalize s.receiver = r at step
      cases step <;> rfl
  | task i =>
    rcases Option.bind_eq_some_iff.mp he with ⟨task, -, hrest⟩
    rcases Option.map_eq_some_iff.mp hrest with ⟨⟨sh, task'⟩, hstep, rfl⟩
    exact ⟨rfl, (DatagramTask.step_shut hstep).1⟩
  | drain | elsewhere => cases ha

theorem System.ShuttingDown.step (h : s.ShuttingDown config) (ha : s.Moves config Action.settling a)
    (he : s.exec config a = some t) : t.ShuttingDown config ∧ t.left < s.left := by
  rcases exec_workers ha.1 he with ⟨hlength, hgone⟩
  refine ⟨⟨h.reached.step trivial he, (exec_step he).later.1 h.cancelled, ?_⟩, ?_⟩
  · rcases h.workers with hsome | hnone
    · left
      rw [← List.length_pos_iff] at hsome ⊢
      omega
    · exact .inr (hgone.trans hnone)
  · rcases exec_left h.cancelled ha.1 he with hlt | rfl
    · exact hlt
    · exact absurd he ha.2

/-- At rest in a shutdown, every tracked task has ended. -/
theorem System.ShuttingDown.tracked (h : s.ShuttingDown config)
    (hrest : s.AtRest config Action.settling) : s.Tracked := by
  have hidle : s.Idle config := by
    refine System.AtRest.idle h.reached h.workers (hrest.mono ?_)
    intro a ha
    unfold Action.settling
    split <;> first | rfl | exact ha
  refine ⟨?_, ?_, ?_, hidle.tasks⟩
  · intro l hl
    rcases List.getElem?_of_mem hl with ⟨i, hi⟩
    rcases hidle.listeners l hl with rfl | rfl
    · have hsame := hrest.eq (a := .listener i .cancelled) rfl
        (t := { s with listeners := s.listeners.set i .stopped })
        (by simp [System.exec, hi, Listener.step, h.cancelled])
      cases set_eq_self hi (congrArg System.listeners hsame)
    · rfl
  · intro c hc
    rcases List.getElem?_of_mem hc with ⟨i, hi⟩
    have hwaits := (hidle.conns c hc).1
    cases hr : c.reader with
    | done => exact .inl rfl
    | panicked => exact .inr rfl
    | proxy =>
      have hsame := hrest.eq (a := .reader i .noProxy) rfl
        (t := { s with
          shared := s.shared.count (fun k => { k with proxyReadErrors := k.proxyReadErrors + 1 })
          conns := s.conns.set i { c with delivery := .finished, reader := .closing } })
        (by simp [System.exec, hi, Conn.readerStep, hr, Conn.proxyStep])
      have hreader := congrArg Conn.reader (set_eq_self hi (congrArg System.conns hsame))
      rw [hr] at hreader
      cases hreader
    | reading =>
      have hsame := hrest.eq (a := .reader i .cancelled) rfl
        (t := { s with conns := s.conns.set i { c with reader := .joining } })
        (by simp [System.exec, hi, Conn.readerStep, hr, Conn.readStep, h.cancelled])
      have hreader := congrArg Conn.reader (set_eq_self hi (congrArg System.conns hsame))
      rw [hr] at hreader
      cases hreader
    | _ =>
      rw [hr] at hwaits
      cases hwaits
  · rcases hidle.receiver with hr | hr
    · have hsame := hrest.eq (a := .receiver .cancelled) rfl
        (t := { s with receiver := .stopped })
        (by simp [System.exec, hr, Receiver.step, h.cancelled])
      have hreceiver := congrArg System.receiver hsame
      rw [hr] at hreceiver
      cases hreceiver
    · exact hr

end System

/-- Once the token is cancelled, the process shuts down by itself, with workers that answer and
no more news from the peers: in whatever order the tasks run, at most `s.left` steps change
anything, a run that cannot be continued ends with every tracked task ended, and there is such a
run, so that the drain has something to wait for only for a bounded time. -/
theorem shutdown_completes (config : Config) (s : System) (h : s.Reachable config)
    (hcancelled : s.shared.cancelled = true)
    (hworkers : s.workers ≠ [] ∨ s.shared.receiversGone = true) :
    (∀ actions t,
      run (System.exec config) (System.Moves config Action.settling) s actions = some t →
      actions.length ≤ s.left ∧ (t.AtRest config Action.settling → t.Tracked)) ∧
    ∃ actions t,
      run (System.exec config) (System.Moves config Action.settling) s actions = some t ∧
      t.Tracked := by
  have hs : s.ShuttingDown config := ⟨h, hcancelled, hworkers⟩
  have hfall : ∀ s a t, System.ShuttingDown config s → s.Moves config Action.settling a →
      s.exec config a = some t → t.ShuttingDown config ∧ t.left < s.left :=
    fun _ _ _ hs ha he => hs.step ha he
  constructor
  · intro actions t hrun
    have hbound := run_countP_le (System.ShuttingDown config) System.left (fun _ => true) ?_ hrun hs
    · rw [List.countP_true] at hbound
      exact ⟨by omega, hbound.1.tracked⟩
    · intro s a t hs ha he
      rcases hfall s a t hs ha he with ⟨ht, hlt⟩
      exact ⟨ht, by simp only [if_true]; omega⟩
  · rcases exists_rests _ _ hfall hs with ⟨actions, t, hrun, ht, hrest⟩
    exact ⟨actions, t, hrun, ht.tracked hrest⟩

/-- The drain starts with one message in the queue and another that has just been framed. -/
theorem shutdown_completes_pending :
    ∃ s : System, s.Reachable .small ∧ (s.drain = .waiting ∧ s.shared.queue.length = 1) ∧
      ∃ actions t,
        run (System.exec .small) (System.Moves .small Action.settling) s actions = some t ∧
        t.Tracked := by
  have hrun : ∃ s : System, s.Reachable .small ∧ (s.drain = .waiting ∧
      s.shared.queue.length = 1) ∧ s.shared.cancelled = true ∧ s.workers ≠ [] :=
    exists_reached
      (serving [120, 10, 121, 10] 6 ++
        [.delivery 0, .delivery 0, .worker .hire, .drain .wait])
      (by decide +kernel)
  rcases hrun with ⟨s, hs, hpending, hcancelled, hworkers⟩
  exact ⟨s, hs, hpending, (shutdown_completes .small s hs hcancelled (.inl hworkers)).2⟩

end HyperRuby.Dispatch
