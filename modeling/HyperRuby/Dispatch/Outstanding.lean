import HyperRuby.Dispatch.StopAndWait
import HyperRuby.Library.Reply

/-! # Every wait has its delivery, every delivery its wait

A call of `Dispatcher::deliver` that waits for a verdict is the client of the
worker that has its delivery. The deliveries in the queue and with the workers
are, one for one, the unanswered ones of the tasks that wait.
-/
namespace HyperRuby.Dispatch
open Framing Library

inductive WorkerStep (s : System) : WorkerMove → System → Prop where
  | hired : WorkerStep s .hire { s with workers := s.workers ++ [none] }
  | took (k : ℕ) (d : SyslogDelivery) (queue : List SyslogDelivery)
      (idle : s.workers[k]? = some none) (front : s.shared.queue = d :: queue) :
      WorkerStep s (.take k)
        { s with
          shared := { s.shared with queue := queue }
          workers := s.workers.set k (some d) }
  | answered (k : ℕ) (result : HandlerResult) (d : SyslogDelivery)
      (busy : s.workers[k]? = some (some d)) :
      WorkerStep s (.answer k result)
        { s with shared := s.shared.answer d (.send result), workers := s.workers.set k none }
  | dropped (k : ℕ) (d : SyslogDelivery) (busy : s.workers[k]? = some (some d)) :
      WorkerStep s (.quit k)
        { s with shared := s.shared.answer d .dropSender, workers := s.workers.eraseIdx k }
  | left (k : ℕ) (idle : s.workers[k]? = some none) :
      WorkerStep s (.quit k) { s with workers := s.workers.eraseIdx k }
  | gone (none : s.workers = []) :
      WorkerStep s .dropReceivers
        { s with
          shared := { s.shared.queue.foldl (fun sh d => sh.answer d .dropSender) s.shared with
            queue := []
            receiversGone := true } }

theorem workerStep_cases {s t : System} {move : WorkerMove} (h : s.workerStep move = some t) :
    WorkerStep s move t := by
  cases move with
  | hire =>
    simp only [System.workerStep] at h
    split_ifs at h
    cases h
    exact .hired
  | take k =>
    simp only [System.workerStep] at h
    split at h
    case h_1 d queue idle front =>
      cases h
      exact .took k d queue idle front
    case h_2 => cases h
  | answer k result =>
    simp only [System.workerStep] at h
    split at h
    case h_1 d busy =>
      cases h
      exact .answered k result d busy
    case h_2 => cases h
  | quit k =>
    simp only [System.workerStep] at h
    split at h
    case h_1 d busy =>
      cases h
      exact .dropped k d busy
    case h_2 idle =>
      cases h
      exact .left k idle
    case h_3 => cases h
  | dropReceivers =>
    simp only [System.workerStep] at h
    split_ifs at h with hnone
    cases h
    exact .gone hnone

section Stakes

def Oneshot.vacant : Oneshot → Bool
  | .empty => true
  | .value _ | .closed => false

/-- The delivery a call of `deliver` waits for. -/
def Deliver.waitsFor (p : PendingMessage) (attempt : ℕ) : Deliver → Multiset SyslogDelivery
  | .awaiting resultRx => {⟨p.attempted attempt, resultRx⟩}
  | .pushing | .counting _ => 0

def Delivery.waitsFor : Delivery → Multiset SyslogDelivery
  | .delivering p attempt stage => stage.waitsFor p attempt
  | _ => 0

def DatagramTask.waitsFor (task : DatagramTask) : Multiset SyslogDelivery :=
  match task.stage with
  | .delivering stage => stage.waitsFor task.pending 1
  | _ => 0

/-- The deliveries that tasks wait for. -/
def System.awaited (s : System) : Multiset SyslogDelivery :=
  (s.conns.map (fun c => c.delivery.waitsFor)).sum + (s.tasks.map DatagramTask.waitsFor).sum

/-- The deliveries in the queue and with the workers. -/
def System.outstanding (s : System) : Multiset SyslogDelivery :=
  ↑s.shared.queue + (s.workers.map (fun w => (w.toList : Multiset SyslogDelivery))).sum

end Stakes

/-- A change that keeps waits and deliveries matched, whatever the other tasks do. -/
abbrev Matches (waits held : Multiset SyslogDelivery) (slots : List Oneshot)
    (waits' held' : Multiset SyslogDelivery) (slots' : List Oneshot) : Prop :=
  Update SyslogDelivery.resultTx Oneshot.vacant false (0, waits, held) slots (0, waits', held')
    slots'

section Tasks
variable {config : Config} {sh sh' : Shared}

def Progress.waitsFor : Progress → Multiset SyslogDelivery
  | .pushed d => {d}
  | .full | .answered _ | .ended _ => 0

/-- A call of `deliver` pushes the delivery it then waits for, and waits until the answer
channel is used or closed. -/
theorem DeliverStep.matches {p : PendingMessage} {attempt : ℕ} {stage : Deliver}
    {progress : Progress} (h : DeliverStep config sh p attempt stage sh' progress) :
    Matches (stage.waitsFor p attempt) sh.queue sh.oneshots progress.waitsFor sh'.queue
      sh'.oneshots := by
  cases h with
  | gone | full => exact .refl
  | pushed room =>
    have hdraft : Update SyslogDelivery.resultTx Oneshot.vacant false 0 sh.oneshots
        ({⟨p.attempted attempt, sh.oneshots.length⟩}, 0, 0) (sh.oneshots ++ [.empty]) :=
      .draft _ _ rfl rfl
    have hask := hdraft.trans (.send _)
    refine (hask.frame (0, 0, ↑sh.queue)).cast ?_ ?_
    · simp [Deliver.waitsFor]
    · simp only [Progress.waitsFor, Shared.push, Prod.mk_add_mk, add_zero, zero_add,
        ← Multiset.coe_add, Multiset.coe_singleton, add_comm]
  | answered rx result sent =>
    have hdone : ¬ Open Oneshot.vacant sh.oneshots rx := by simp [Open, sent, Oneshot.vacant]
    refine ((Update.collect ⟨p.attempted attempt, rx⟩ hdone).frame (0, 0, ↑sh.queue)).cast ?_ ?_
    · simp [Deliver.waitsFor]
    · simp [Progress.waitsFor]
  | unanswered rx dropped =>
    have hdone : ¬ Open Oneshot.vacant sh.oneshots rx := by simp [Open, dropped, Oneshot.vacant]
    refine ((Update.collect ⟨p.attempted attempt, rx⟩ hdone).frame (0, 0, ↑sh.queue)).cast ?_ ?_
    · simp [Deliver.waitsFor]
    · simp [Progress.waitsFor]
  | counted result => cases result <;> exact .refl

theorem DeliverStep.waitsFor_conn {p : PendingMessage} {attempt : ℕ} {stage : Deliver}
    {progress : Progress} (h : DeliverStep config sh p attempt stage sh' progress) (c : Conn) :
    (c.resume p attempt progress).delivery.waitsFor = progress.waitsFor := by
  cases h with
  | counted result => cases result <;> rfl
  | _ => rfl

theorem DeliverStep.waitsFor_task {t : DatagramTask} {stage : Deliver} {progress : Progress}
    (h : DeliverStep config sh t.pending 1 stage sh' progress) :
    (t.resume progress).waitsFor = progress.waitsFor := by
  cases h with
  | counted result => cases result <;> rfl
  | _ => rfl

theorem DeliveryStep.matches {c c' : Conn} (h : DeliveryStep config sh c sh' c') :
    Matches c.delivery.waitsFor sh.queue sh.oneshots c'.delivery.waitsFor sh'.queue
      sh'.oneshots := by
  cases h with
  | delivered p attempt stage _ progress pc step =>
    rw [pc, step.waitsFor_conn]
    exact step.matches
  | received _ _ pc | skipped _ _ pc | finished pc | gaveUp _ _ pc | held _ _ pc | woke _ _ pc
  | abandoned _ pc | released _ pc | freed _ pc =>
    rw [pc]
    exact .refl

theorem TaskStep.matches {t t' : DatagramTask} (h : TaskStep config sh t sh' t') :
    Matches t.waitsFor sh.queue sh.oneshots t'.waitsFor sh'.queue sh'.oneshots := by
  cases h with
  | delivered stage _ progress pc step =>
    rw [step.waitsFor_task, DatagramTask.waitsFor, pc]
    exact step.matches
  | dropped pc | released pc | freed pc =>
    simp only [DatagramTask.waitsFor, pc]
    exact .refl

theorem ReaderStep.waitsFor {c c' : Conn} (h : ReaderStep config sh c sh' c') (hc : c.Coherent) :
    c'.delivery.waitsFor = c.delivery.waitsFor ∧ sh'.queue = sh.queue ∧
      sh'.oneshots = sh.oneshots := by
  cases h with
  | badProxy pc | noProxy pc => exact ⟨by rw [(hc.proxy pc).1]; rfl, rfl, rfl⟩
  | _ => exact ⟨rfl, rfl, rfl⟩

theorem ReceiverStep.waitsFor {r r' : Receiver} {spawned : Option DatagramTask}
    (h : ReceiverStep config sh r sh' r' spawned) :
    (spawned.toList.map DatagramTask.waitsFor).sum = 0 ∧ sh'.queue = sh.queue ∧
      sh'.oneshots = sh.oneshots := by
  cases h <;> exact ⟨rfl, rfl, rfl⟩

theorem ListenerStep.waitsFor {l l' : Listener} {spawned : Option Conn}
    (h : ListenerStep config sh l sh' l' spawned) :
    (spawned.toList.map (fun c => c.delivery.waitsFor)).sum = 0 ∧ sh'.queue = sh.queue ∧
      sh'.oneshots = sh.oneshots := by
  cases h <;> exact ⟨rfl, rfl, rfl⟩

end Tasks

section Workers

theorem vacant_send (result : HandlerResult) (o : Oneshot) : (o.send result).vacant = false := by
  cases o <;> rfl

theorem vacant_dropSender (o : Oneshot) : o.dropSender.vacant = false := by cases o <;> rfl

/-- A queue that is dropped closes the answer channels of its deliveries. -/
theorem matches_dropped (queue : List SyslogDelivery) (sh : Shared) :
    Matches 0 queue sh.oneshots 0 0
      (queue.foldl (fun sh d => sh.answer d .dropSender) sh).oneshots := by
  induction queue generalizing sh with
  | nil => exact .refl
  | cons d queue ih =>
    have hfirst : Update SyslogDelivery.resultTx Oneshot.vacant false (0, 0, {d}) sh.oneshots 0
        (sh.oneshots.modify d.resultTx Oneshot.dropSender) := .answer d vacant_dropSender
    refine Update.trans ((hfirst.frame (0, 0, ↑queue)).cast ?_ ?_) (ih (sh.answer d .dropSender))
    · simp [← Multiset.cons_coe]
    · simp

theorem WorkerStep.matches {s t : System} {move : WorkerMove} (h : WorkerStep s move t) :
    Matches s.awaited s.outstanding s.shared.oneshots t.awaited t.outstanding
      t.shared.oneshots := by
  cases h with
  | hired => exact Update.refl.cast rfl (by simp [System.awaited, System.outstanding])
  | took k d queue idle front =>
    rcases tally_set (fun w => (w.toList : Multiset SyslogDelivery)) idle (some d)
      with ⟨rest, hold, hnew⟩
    refine Update.refl.cast rfl ?_
    simp only [System.awaited, System.outstanding, hold, hnew, front]
    simp [← Multiset.cons_coe]
  | answered k result d busy =>
    rcases tally_set (fun w => (w.toList : Multiset SyslogDelivery)) busy none
      with ⟨rest, hold, hnew⟩
    refine ((Update.answer d (vacant_send result)).frame
      (0, s.awaited, ↑s.shared.queue + rest)).cast ?_ ?_
    · simp [System.outstanding, hold]
    · simp only [System.awaited, System.outstanding, hnew, Shared.answer]
      simp
  | dropped k d busy =>
    have hold := tally_eraseIdx (fun w => (w.toList : Multiset SyslogDelivery)) busy
    refine ((Update.answer d vacant_dropSender).frame (0, s.awaited, ↑s.shared.queue +
      ((s.workers.eraseIdx k).map (fun w => (w.toList : Multiset SyslogDelivery))).sum)).cast ?_ ?_
    · simp [System.outstanding, hold]
    · simp [System.awaited, System.outstanding, Shared.answer]
  | left k idle =>
    have hold := tally_eraseIdx (fun w => (w.toList : Multiset SyslogDelivery)) idle
    refine Update.refl.cast rfl ?_
    simp [System.awaited, System.outstanding, hold]
  | gone none =>
    refine ((matches_dropped s.shared.queue s.shared).frame (0, s.awaited, 0)).cast ?_ ?_
    · simp [System.outstanding, none]
    · simp [System.awaited, System.outstanding, none]

end Workers

section System
variable {config : Config} {s t : System}

theorem matches_conn {i : ℕ} {c c' : Conn} {sh : Shared} (found : s.conns[i]? = some c)
    (h : Matches c.delivery.waitsFor s.shared.queue s.shared.oneshots c'.delivery.waitsFor
      sh.queue sh.oneshots) :
    Matches s.awaited s.outstanding s.shared.oneshots
      (System.awaited { s with shared := sh, conns := s.conns.set i c' })
      (System.outstanding { s with shared := sh, conns := s.conns.set i c' }) sh.oneshots := by
  rcases tally_set (fun c => c.delivery.waitsFor) found c' with ⟨rest, hold, hnew⟩
  refine (h.frame (0, rest + (s.tasks.map DatagramTask.waitsFor).sum,
    (s.workers.map (fun w => (w.toList : Multiset SyslogDelivery))).sum)).cast ?_ ?_
  · simp only [System.awaited, System.outstanding, hold, Prod.mk_add_mk, add_zero, add_assoc]
  · simp only [System.awaited, System.outstanding, hnew, Prod.mk_add_mk, add_zero, add_assoc]

theorem matches_task {i : ℕ} {task task' : DatagramTask} {sh : Shared}
    (found : s.tasks[i]? = some task)
    (h : Matches task.waitsFor s.shared.queue s.shared.oneshots task'.waitsFor sh.queue
      sh.oneshots) :
    Matches s.awaited s.outstanding s.shared.oneshots
      (System.awaited { s with shared := sh, tasks := s.tasks.set i task' })
      (System.outstanding { s with shared := sh, tasks := s.tasks.set i task' }) sh.oneshots := by
  rcases tally_set DatagramTask.waitsFor found task' with ⟨rest, hold, hnew⟩
  refine (h.frame (0, (s.conns.map (fun c => c.delivery.waitsFor)).sum + rest,
    (s.workers.map (fun w => (w.toList : Multiset SyslogDelivery))).sum)).cast ?_ ?_
  · simp only [System.awaited, System.outstanding, hold, Prod.mk_add_mk, add_zero, add_left_comm]
  · simp only [System.awaited, System.outstanding, hnew, Prod.mk_add_mk, add_zero, add_left_comm]

theorem exec_matches {a : Action} (h : System.exec config s a = some t)
    (hc : ∀ c ∈ s.conns, c.Coherent) :
    Matches s.awaited s.outstanding s.shared.oneshots t.awaited t.outstanding
      t.shared.oneshots := by
  cases exec_step h with
  | listener i input l sh l' spawned _ step =>
    rcases step.waitsFor with ⟨hnone, hqueue, hslots⟩
    rw [hslots]
    refine Update.refl.cast rfl ?_
    simp [System.awaited, System.outstanding, hnone, hqueue]
  | reader i input c sh c' found step =>
    rcases step.waitsFor (hc c (List.mem_of_getElem? found)) with ⟨hwaits, hqueue, hslots⟩
    apply matches_conn found
    rw [hwaits, hqueue, hslots]
    exact .refl
  | delivery i c sh c' found step => exact matches_conn found step.matches
  | receiver input sh r spawned step =>
    rcases step.waitsFor with ⟨hnone, hqueue, hslots⟩
    rw [hslots]
    refine Update.refl.cast rfl ?_
    simp [System.awaited, System.outstanding, hnone, hqueue]
  | task i task sh task' found step => exact matches_task found step.matches
  | worker => exact (workerStep_cases h).matches
  | stopAccepting | wait | complete | timeout | swap | abandon | elsewhere => exact .refl

theorem run_matched {allowed : System → Action → Prop}
    (h : Reached (System.exec config) allowed (.start config) s) :
    Settled SyslogDelivery.resultTx Oneshot.vacant false 0 s.awaited s.outstanding
      s.shared.oneshots := by
  apply h.invariant (fun s => Settled SyslogDelivery.resultTx Oneshot.vacant false 0 s.awaited
    s.outstanding s.shared.oneshots)
  · exact Settled.nil
  · exact fun s a t hs _ ih he => (exec_matches he (conns_coherent hs)).settled ih

end System

section Identity
variable {config : Config} {allowed : System → Action → Prop} {s : System}

theorem open_iff (slots : List Oneshot) (k : ℕ) :
    Open Oneshot.vacant slots k ↔ slots[k]? = some .empty := by
  unfold Open
  rcases slots[k]? with _ | _ | _ | _ <;> simp [Oneshot.vacant]

theorem Conn.InOrder.waitsFor_le {c : Conn} (h : c.InOrder) :
    c.delivery.waitsFor.map (fun d => d.message.messageId) ≤
      (c.numbered.map PendingMessage.messageId : List ℕ) := by
  cases hd : c.delivery with
  | delivering p attempt stage =>
    cases stage with
    | awaiting rx =>
      have hmem : p ∈ c.numbered := by
        rw [h.numbered]
        simp [Conn.live, hd, Delivery.current]
      simp only [Delivery.waitsFor, Deliver.waitsFor, Multiset.map_singleton,
        Multiset.singleton_le, Multiset.mem_coe]
      exact List.mem_map_of_mem hmem
    | pushing | counting => exact Multiset.zero_le _
  | _ => exact Multiset.zero_le _

theorem DatagramTask.waitsFor_le (t : DatagramTask) :
    t.waitsFor.map (fun d => d.message.messageId) ≤ {t.pending.messageId} := by
  unfold DatagramTask.waitsFor
  split
  case h_1 stage _ => cases stage <;> simp [Deliver.waitsFor, PendingMessage.attempted]
  case h_2 => exact Multiset.zero_le _

theorem DatagramTask.drawn_account (t : DatagramTask) :
    Account.drawn t.account = {t.pending.messageId} := by
  cases hs : t.stage <;> simp [DatagramTask.account, hs, PendingMessage.tokens]

theorem awaited_le (h : Reached (System.exec config) allowed (.start config) s) :
    s.awaited.map (fun d => d.message.messageId) ≤ (s.messageIds : Multiset ℕ) := by
  have hconns : ∀ c ∈ s.conns, c.delivery.waitsFor.map (fun d => d.message.messageId) ≤
      Account.drawn c.account := by
    intro c hc
    rw [Conn.drawn_account]
    exact (conns_paced h c hc).2.waitsFor_le
  have htasks : ∀ t ∈ s.tasks, t.waitsFor.map (fun d => d.message.messageId) ≤
      Account.drawn t.account := by
    intro t _
    rw [DatagramTask.drawn_account]
    exact t.waitsFor_le
  have hmap {τ : Type} (f : τ → Multiset SyslogDelivery) (l : List τ) :=
    tally_measure (Multiset.map fun d : SyslogDelivery => d.message.messageId)
      (Multiset.map_zero _) (Multiset.map_add _) f l
  rw [← drawn_account, System.account, System.awaited, Multiset.map_add, hmap, hmap]
  simp only [Account.drawn_add, tally_measure Account.drawn rfl Account.drawn_add, add_assoc]
  exact add_le_add (List.sum_le_sum hconns)
    ((List.sum_le_sum htasks).trans (Multiset.le_add_right _ _))

/-- In every run, the deliveries in the queue and with the workers are, one for one, those that
a task waits for and that have no verdict yet: no delivery is orphaned and no task waits in
vain. Answer channels are not shared, and no message is out to workers twice at a time. -/
theorem outstanding_awaited (config : Config) (s : System) (h : s.Reachable config) :
    s.outstanding = s.awaited.filter (fun d => s.shared.oneshots[d.resultTx]? = some .empty) ∧
      (s.awaited.map SyslogDelivery.resultTx).Nodup ∧
      (s.outstanding.map (fun d => d.message.messageId)).Nodup := by
  have hmatched := run_matched h
  have heq : s.outstanding =
      s.awaited.filter (fun d => s.shared.oneshots[d.resultTx]? = some .empty) := by
    rw [hmatched.held_eq]
    exact Multiset.filter_congr fun d _ => open_iff _ _
  refine ⟨heq, by simpa using hmatched.clients, ?_⟩
  rw [heq]
  exact Multiset.nodup_of_le ((Multiset.map_le_map (Multiset.filter_le _ _)).trans (awaited_le h))
    (Multiset.coe_nodup.mpr (messageIds_nodup h))

/-- As `Config.small`, with a datagram listener. -/
def Config.mixed : Config := { Config.small with datagramListener := true }

def datagram (message : Bytes) : List Action :=
  [.receiver (.datagram message none 0), .receiver .go, .receiver .go, .receiver .go,
    .receiver .go, .task 0]

/-- A stream message has a verdict that its task has not read, and a datagram is with the
worker. -/
theorem outstanding_awaited_mixed :
    ∃ s : System, s.Reachable .mixed ∧ (s.awaited.card = 2 ∧ s.outstanding.card = 1) ∧
      s.outstanding =
        s.awaited.filter (fun d => s.shared.oneshots[d.resultTx]? = some .empty) := by
  have hrun : ∃ s : System, s.Reachable .mixed ∧ s.awaited.card = 2 ∧ s.outstanding.card = 1 :=
    exists_reached
      (serving [120, 10] 5 ++ [.delivery 0, .delivery 0] ++ datagram [121] ++
        [.worker .hire, .worker (.take 0), .worker (.answer 0 .accepted), .worker (.take 0)])
      (by decide +kernel)
  rcases hrun with ⟨s, hs, hcards⟩
  exact ⟨s, hs, hcards, (outstanding_awaited .mixed s hs).1⟩

end Identity
end HyperRuby.Dispatch
