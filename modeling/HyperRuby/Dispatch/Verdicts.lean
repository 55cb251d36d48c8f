import HyperRuby.Dispatch.Outstanding

/-! # Every verdict is counted once

A verdict goes over the answer channel of its delivery to the task that waits
there, which adds one to the counter of that name. So the verdicts that workers
have given are those counted, those a task is about to count and those a task
has yet to read.
-/
namespace HyperRuby.Dispatch
open Framing Library

def SyslogCounters.verdicts (c : SyslogCounters) : HandlerResult → ℕ
  | .accepted => c.messagesDelivered
  | .refused => c.deliveriesRefused
  | .failed => c.handlerErrors

def Oneshot.carries (result : HandlerResult) (o : Oneshot) : Bool := o = .value result

section Counting
variable (result : HandlerResult)

/-- A verdict read that the next step counts. -/
def Deliver.counts : Deliver → ℕ
  | .counting r => if r = result then 1 else 0
  | .pushing | .awaiting _ => 0

def Delivery.counts : Delivery → ℕ
  | .delivering _ _ stage => stage.counts result
  | _ => 0

def DatagramTask.counts (task : DatagramTask) : ℕ :=
  match task.stage with
  | .delivering stage => stage.counts result
  | _ => 0

/-- Tasks that are about to count the verdict. -/
def System.counting (s : System) : ℕ :=
  (s.conns.map (fun c => c.delivery.counts result)).sum +
    (s.tasks.map (DatagramTask.counts result)).sum

def Progress.counts : Progress → ℕ
  | .answered r => if r = result then 1 else 0
  | .full | .pushed _ | .ended _ => 0

end Counting

/-- The books of one verdict, with `n` about to be counted. -/
abbrev Reckoned (result : HandlerResult) (sh : Shared) (n : ℕ) (waits : Multiset SyslogDelivery) :
    Prop :=
  Tallied SyslogDelivery.resultTx (Oneshot.carries result) (sh.counters.verdicts result + n) waits
    sh.oneshots

section Tasks
variable {config : Config} {sh sh' : Shared} {result : HandlerResult}
  {waits : Multiset SyslogDelivery} {n : ℕ}

theorem Reckoned.of_eq (h : Reckoned result sh n waits) (hslots : sh'.oneshots = sh.oneshots)
    (hcounters : sh'.counters.verdicts result = sh.counters.verdicts result) :
    Reckoned result sh' n waits := by
  rw [Reckoned, hslots, hcounters]
  exact h

theorem verdicts_countVerdict (sh : Shared) (r result : HandlerResult) :
    (countVerdict sh r).1.counters.verdicts result =
      sh.counters.verdicts result + if r = result then 1 else 0 := by
  cases r <;> cases result <;> rfl

/-- A call of `deliver` reads the verdict it waits for, and counts the verdict it has read. -/
theorem DeliverStep.reckoned {p : PendingMessage} {attempt : ℕ} {stage : Deliver}
    {progress : Progress} (h : DeliverStep config sh p attempt stage sh' progress)
    (hknown : ∀ d ∈ waits, d.resultTx < sh.oneshots.length)
    (hr : Reckoned result sh (stage.counts result + n) (stage.waitsFor p attempt + waits)) :
    Reckoned result sh' (progress.counts result + n) (progress.waitsFor + waits) := by
  cases h with
  | gone | full => exact hr
  | pushed room =>
    rw [Deliver.waitsFor, zero_add] at hr
    exact hr.ask hknown rfl rfl
  | answered rx r sent =>
    have hread := hr.collect sent
    simp only [Oneshot.carries, Oneshot.value.injEq, decide_eq_true_eq, Deliver.counts] at hread
    rw [Reckoned, Progress.waitsFor, Progress.counts, zero_add]
    convert hread using 1
    omega
  | unanswered rx dropped =>
    have hread := hr.collect dropped
    rw [Reckoned, Progress.waitsFor, Progress.counts, zero_add]
    simpa [Oneshot.carries, Deliver.counts] using hread
  | counted r =>
    rw [Reckoned, verdicts_countVerdict, Progress.counts, add_assoc, Nat.zero_add]
    cases r <;> exact hr

theorem DeliverStep.counts_conn {p : PendingMessage} {attempt : ℕ} {stage : Deliver}
    {progress : Progress} (h : DeliverStep config sh p attempt stage sh' progress) (c : Conn) :
    (c.resume p attempt progress).delivery.counts result = progress.counts result := by
  cases h with
  | counted r => cases r <;> rfl
  | _ => rfl

theorem DeliverStep.counts_task {t : DatagramTask} {stage : Deliver} {progress : Progress}
    (h : DeliverStep config sh t.pending 1 stage sh' progress) :
    (t.resume progress).counts result = progress.counts result := by
  cases h with
  | counted r => cases r <;> rfl
  | _ => rfl

theorem DeliveryStep.reckoned {c c' : Conn} (h : DeliveryStep config sh c sh' c')
    (hknown : ∀ d ∈ waits, d.resultTx < sh.oneshots.length)
    (hr : Reckoned result sh (c.delivery.counts result + n) (c.delivery.waitsFor + waits)) :
    Reckoned result sh' (c'.delivery.counts result + n) (c'.delivery.waitsFor + waits) := by
  cases h with
  | delivered p attempt stage _ progress pc step =>
    rw [pc] at hr
    rw [step.counts_conn, step.waitsFor_conn]
    exact step.reckoned hknown hr
  | received _ _ pc | skipped _ _ pc | finished pc | gaveUp _ _ pc | held _ _ pc | woke _ _ pc
  | abandoned _ pc | released _ pc | freed _ pc =>
    rw [pc] at hr
    cases result <;> exact hr

theorem TaskStep.reckoned {t t' : DatagramTask} (h : TaskStep config sh t sh' t')
    (hknown : ∀ d ∈ waits, d.resultTx < sh.oneshots.length)
    (hr : Reckoned result sh (t.counts result + n) (t.waitsFor + waits)) :
    Reckoned result sh' (t'.counts result + n) (t'.waitsFor + waits) := by
  cases h with
  | delivered stage _ progress pc step =>
    simp only [DatagramTask.counts, DatagramTask.waitsFor, pc] at hr
    rw [step.counts_task, step.waitsFor_task]
    exact step.reckoned hknown hr
  | dropped pc | released pc | freed pc =>
    simp only [DatagramTask.counts, DatagramTask.waitsFor, pc] at hr
    cases result <;> exact hr

theorem ReaderStep.counts {c c' : Conn} (h : ReaderStep config sh c sh' c') (hc : c.Coherent)
    (result : HandlerResult) :
    c'.delivery.counts result = c.delivery.counts result ∧
      sh'.counters.verdicts result = sh.counters.verdicts result := by
  cases h with
  | badProxy pc | noProxy pc => exact ⟨by rw [(hc.proxy pc).1]; rfl, by cases result <;> rfl⟩
  | rejected error => exact ⟨rfl, by cases error.reason <;> cases result <;> rfl⟩
  | _ => exact ⟨rfl, by cases result <;> rfl⟩

theorem ReceiverStep.counts {r r' : Receiver} {spawned : Option DatagramTask}
    (h : ReceiverStep config sh r sh' r' spawned) (result : HandlerResult) :
    (spawned.toList.map (DatagramTask.counts result)).sum = 0 ∧
      sh'.counters.verdicts result = sh.counters.verdicts result := by
  cases h <;> exact ⟨rfl, by cases result <;> rfl⟩

theorem ListenerStep.counts {l l' : Listener} {spawned : Option Conn}
    (h : ListenerStep config sh l sh' l' spawned) (result : HandlerResult) :
    (spawned.toList.map (fun c => c.delivery.counts result)).sum = 0 ∧
      sh'.counters.verdicts result = sh.counters.verdicts result := by
  cases h <;> exact ⟨rfl, by cases result <;> rfl⟩

end Tasks

section System
variable {config : Config} {s t : System} {result : HandlerResult}

theorem reckoned_dropped (queue : List SyslogDelivery) {sh : Shared} {n : ℕ}
    {waits : Multiset SyslogDelivery} (hr : Reckoned result sh n waits) :
    Reckoned result (queue.foldl (fun sh d => sh.answer d .dropSender) sh) n waits := by
  induction queue generalizing sh with
  | nil => exact hr
  | cons d queue ih =>
    exact ih (hr.keep (f := Oneshot.dropSender) (by intro o; cases o <;> rfl) d.resultTx)

theorem WorkerStep.reckoned {move : WorkerMove} (h : WorkerStep s move t)
    (hs : Settled SyslogDelivery.resultTx Oneshot.vacant false 0 s.awaited s.outstanding
      s.shared.oneshots)
    (hr : Reckoned result s.shared (s.counting result) s.awaited) :
    Reckoned result t.shared (t.counting result) t.awaited := by
  cases h with
  | answered k r d busy =>
    have hheld : d ∈ s.outstanding := by
      refine Multiset.mem_add.mpr (.inr ?_)
      rw [tally_eraseIdx (fun w => (w.toList : Multiset SyslogDelivery)) busy]
      simp
    rw [hs.held_eq, Multiset.mem_filter, open_iff] at hheld
    exact hr.fill hheld.1 (by simpa using hs.clients) hheld.2 rfl
  | dropped k d busy =>
    exact hr.keep (f := Oneshot.dropSender) (by intro o; cases o <;> rfl) d.resultTx
  | gone none => exact reckoned_dropped s.shared.queue hr
  | hired | took | left => exact hr

theorem reckoned_conn {i : ℕ} {c c' : Conn} {sh : Shared} (found : s.conns[i]? = some c)
    (hr : Reckoned result s.shared (s.counting result) s.awaited)
    (hstep : ∀ n waits, waits ≤ s.awaited →
      Reckoned result s.shared (c.delivery.counts result + n) (c.delivery.waitsFor + waits) →
      Reckoned result sh (c'.delivery.counts result + n) (c'.delivery.waitsFor + waits)) :
    Reckoned result sh
      (System.counting result { s with shared := sh, conns := s.conns.set i c' })
      (System.awaited { s with shared := sh, conns := s.conns.set i c' }) := by
  rcases tally_set (fun c => c.delivery.waitsFor) found c' with ⟨waits, hold, hnew⟩
  rcases tally_set (fun c => c.delivery.counts result) found c' with ⟨n, hcold, hcnew⟩
  have hawaited : s.awaited = c.delivery.waitsFor +
      (waits + (s.tasks.map DatagramTask.waitsFor).sum) := by
    rw [System.awaited, hold, add_assoc]
  have hcounting : s.counting result = c.delivery.counts result +
      (n + (s.tasks.map (DatagramTask.counts result)).sum) := by
    rw [System.counting, hcold, add_assoc]
  rw [hawaited, hcounting] at hr
  have hnext := hstep _ _ (hawaited ▸ Multiset.le_add_left _ _) hr
  simp only [System.counting, System.awaited, hnew, hcnew, add_assoc]
  exact hnext

theorem reckoned_task {i : ℕ} {task task' : DatagramTask} {sh : Shared}
    (found : s.tasks[i]? = some task)
    (hr : Reckoned result s.shared (s.counting result) s.awaited)
    (hstep : ∀ n waits, waits ≤ s.awaited →
      Reckoned result s.shared (task.counts result + n) (task.waitsFor + waits) →
      Reckoned result sh (task'.counts result + n) (task'.waitsFor + waits)) :
    Reckoned result sh
      (System.counting result { s with shared := sh, tasks := s.tasks.set i task' })
      (System.awaited { s with shared := sh, tasks := s.tasks.set i task' }) := by
  rcases tally_set DatagramTask.waitsFor found task' with ⟨waits, hold, hnew⟩
  rcases tally_set (DatagramTask.counts result) found task' with ⟨n, hcold, hcnew⟩
  have hawaited : s.awaited = task.waitsFor +
      ((s.conns.map (fun c => c.delivery.waitsFor)).sum + waits) := by
    rw [System.awaited, hold, add_left_comm]
  have hcounting : s.counting result = task.counts result +
      ((s.conns.map (fun c => c.delivery.counts result)).sum + n) := by
    rw [System.counting, hcold, add_left_comm]
  rw [hawaited, hcounting] at hr
  have hnext := hstep _ _ (hawaited ▸ Multiset.le_add_left _ _) hr
  simp only [System.counting, System.awaited, hnew, hcnew]
  rw [add_left_comm _ (task'.counts result), add_left_comm _ task'.waitsFor]
  exact hnext

theorem exec_reckoned {a : Action} (h : System.exec config s a = some t)
    (hc : ∀ c ∈ s.conns, c.Coherent)
    (hs : Settled SyslogDelivery.resultTx Oneshot.vacant false 0 s.awaited s.outstanding
      s.shared.oneshots)
    (hr : Reckoned result s.shared (s.counting result) s.awaited) :
    Reckoned result t.shared (t.counting result) t.awaited := by
  have hknown : ∀ waits ≤ s.awaited, ∀ d ∈ waits, d.resultTx < s.shared.oneshots.length :=
    fun waits hle d hd => hs.known d (.inr (.inl (Multiset.mem_of_le hle hd)))
  cases exec_step h with
  | listener i input l sh l' spawned _ step =>
    rcases step.waitsFor with ⟨hwaits, -, hslots⟩
    rcases step.counts result with ⟨hcounts, hverdicts⟩
    simp only [System.counting, System.awaited, List.map_append, List.sum_append, hwaits, hcounts,
      add_zero]
    exact hr.of_eq hslots hverdicts
  | reader i input c sh c' found step =>
    have hcoherent := hc c (List.mem_of_getElem? found)
    rcases step.waitsFor hcoherent with ⟨hwaits, -, hslots⟩
    rcases step.counts hcoherent result with ⟨hcounts, hverdicts⟩
    apply reckoned_conn found hr
    intro n waits _ hr
    rw [hwaits, hcounts]
    exact hr.of_eq hslots hverdicts
  | delivery i c sh c' found step =>
    exact reckoned_conn found hr fun n waits hle hr => step.reckoned (hknown waits hle) hr
  | receiver input sh r spawned step =>
    rcases step.waitsFor with ⟨hwaits, -, hslots⟩
    rcases step.counts result with ⟨hcounts, hverdicts⟩
    simp only [System.counting, System.awaited, List.map_append, List.sum_append, hwaits, hcounts,
      add_zero]
    exact hr.of_eq hslots hverdicts
  | task i task sh task' found step =>
    exact reckoned_task found hr fun n waits hle hr => step.reckoned (hknown waits hle) hr
  | worker => exact (workerStep_cases h).reckoned hs hr
  | swap | abandon => cases result <;> exact hr
  | stopAccepting | wait | complete | timeout | elsewhere => exact hr

theorem run_reckoned {allowed : System → Action → Prop}
    (h : Reached (System.exec config) allowed (.start config) s) :
    Reckoned result s.shared (s.counting result) s.awaited := by
  apply h.invariant (fun s => Reckoned result s.shared (s.counting result) s.awaited)
  · cases result <;> exact Tallied.nil
  · exact fun s a t hs _ ih he => exec_reckoned he (conns_coherent hs) (run_matched hs) ih

end System

/-- In every run and for each kind of verdict, the verdicts that workers have given are the
count under its name, the verdicts a task is about to add to it, and the verdicts that wait to
be read by the task they are for. -/
theorem verdicts_counted (config : Config) (s : System) (h : s.Reachable config)
    (result : HandlerResult) :
    s.shared.oneshots.count (.value result) =
      s.shared.counters.verdicts result + s.counting result +
        (s.awaited.filter (fun d => s.shared.verdict d = some result)).card := by
  have hr : Reckoned result s.shared (s.counting result) s.awaited := run_reckoned h
  have hverdict : ∀ d ∈ s.awaited, Open (Oneshot.carries result) s.shared.oneshots d.resultTx ↔
      s.shared.verdict d = some result := by
    intro d _
    rw [verdict_eq, Open]
    cases s.shared.oneshots[d.resultTx]? <;> simp [Oneshot.carries]
  rw [Reckoned, Tallied, Multiset.countP_eq_card_filter, Multiset.filter_congr hverdict] at hr
  rw [← hr, List.count]
  congr 1

/-- A first refusal is counted, a second one is read but not counted yet, and a datagram has
been refused as well. -/
theorem verdicts_counted_refused :
    ∃ s : System, s.Reachable .mixed ∧
      (s.shared.counters.deliveriesRefused = 1 ∧ s.counting .refused = 1) ∧
      s.shared.oneshots.count (.value .refused) = 3 := by
  have hrun : ∃ s : System, s.Reachable .mixed ∧ s.shared.counters.deliveriesRefused = 1 ∧
      s.counting .refused = 1 ∧
      (s.awaited.filter (fun d => s.shared.verdict d = some .refused)).card = 1 :=
    exists_reached
      (serving [120, 10] 5 ++ [.delivery 0, .delivery 0] ++ datagram [121] ++
        [.worker .hire, .worker (.take 0), .worker (.answer 0 .refused), .worker (.take 0),
          .worker (.answer 0 .refused), .delivery 0, .delivery 0, .delivery 0, .delivery 0,
          .delivery 0, .worker (.take 0), .worker (.answer 0 .refused), .delivery 0])
      (by decide +kernel)
  rcases hrun with ⟨s, hs, hcounted, hcounting, hunread⟩
  have hall := verdicts_counted .mixed s hs .refused
  rw [hcounting, hunread] at hall
  exact ⟨s, hs, ⟨hcounted, hcounting⟩, by rw [hall, SyslogCounters.verdicts, hcounted]⟩

end HyperRuby.Dispatch
