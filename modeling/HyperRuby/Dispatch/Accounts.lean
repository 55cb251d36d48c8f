import HyperRuby.Dispatch.Interleaving

/-! # The listeners keep a ledger

Every step of the listeners is one move of the ledger: the tokens of all tasks
are the account, and credits, gauge, outcome counters and the id counter are the
pool. Only the swap of a timed out drain and the addition that follows it are
not moves of a holder.
-/
namespace HyperRuby.Dispatch
open Framing Library

def Shared.pool (sh : Shared) : Pool :=
  ⟨sh.credits, sh.counters.pending, sh.numbered + sh.received, sh.counters.decided,
    sh.nextMessageId⟩

section Settles

/-- The message a call of `deliver` counts as delivered next. -/
def Deliver.settles (p : PendingMessage) : Deliver → Option ℕ
  | .counting .accepted => some p.messageId
  | _ => none

/-- The message whose outcome the next step of this task records. -/
def Reader.settles : Reader → Option ℕ
  | .abandoning p => some p.messageId
  | _ => none

def Delivery.settles : Delivery → Option ℕ
  | .delivering p _ stage => stage.settles p
  | .abandoning p => some p.messageId
  | _ => none

def DatagramTask.settles (task : DatagramTask) : Option ℕ :=
  match task.stage with
  | .delivering stage => stage.settles task.pending
  | .dropping => some task.pending.messageId
  | _ => none

def System.settles (s : System) : Action → Option ℕ
  | .reader i _ => s.conns[i]?.bind (fun c => c.reader.settles)
  | .delivery i => s.conns[i]?.bind (fun c => c.delivery.settles)
  | .task i => s.tasks[i]?.bind DatagramTask.settles
  | _ => none

end Settles

section Pool
variable (sh : Shared)

theorem pool_abandoned (n : ℕ) :
    (sh.count (fun c => { c with abandonedAtShutdown := c.abandonedAtShutdown + n })).pool =
      { sh.pool with settled := sh.pool.settled + n } := by
  simp only [Shared.pool, Shared.count, SyslogCounters.decided]
  congr 1
  omega

theorem pool_delivered :
    (sh.count (fun c => { c with messagesDelivered := c.messagesDelivered + 1 })).pool =
      { sh.pool with settled := sh.pool.settled + 1 } := by
  simp only [Shared.pool, Shared.count, SyslogCounters.decided]
  congr 1
  omega

theorem pool_dropped :
    (sh.count (fun c => { c with udpDropped := c.udpDropped + 1 })).pool =
      { sh.pool with settled := sh.pool.settled + 1 } := rfl

theorem pool_numbered :
    ({ sh with nextMessageId := sh.nextMessageId + 1, numbered := sh.numbered + 1 } : Shared).pool =
      { sh.pool with entered := sh.pool.entered + 1, next := sh.pool.next + 1 } := by
  simp only [Shared.pool]
  congr 1
  omega

theorem pool_recordRejection (reason : RejectReason) :
    (sh.count (fun c => c.recordRejection reason)).pool = sh.pool := by
  cases reason <;> rfl

end Pool

theorem numbers_append (ids : List ℕ) (i : ℕ) :
    numbers (ids ++ [i]) = numbers ids + {.number i} := by
  simp only [numbers, List.map_append, ← Multiset.coe_add]
  rfl

section Moves
variable {config : Config} {sh sh' : Shared}

/-- A call of `deliver` records the outcome of its message when a worker accepted it, and
otherwise leaves the ledger alone. -/
theorem DeliverStep.pool {p : PendingMessage} {attempt : ℕ} {stage : Deliver}
    {progress : Progress} (h : DeliverStep config sh p attempt stage sh' progress) :
    (progress = .ended .accepted ∧ stage.settles p = some p.messageId ∧
      sh'.pool = { sh.pool with settled := sh.pool.settled + 1 }) ∨
    (progress ≠ .ended .accepted ∧ stage.settles p = none ∧ sh'.pool = sh.pool) := by
  cases h with
  | counted result =>
    cases result with
    | accepted => exact .inl ⟨rfl, rfl, pool_delivered sh⟩
    | refused | failed => exact .inr ⟨by simp [countVerdict], rfl, rfl⟩
  | gone | full | pushed | answered | unanswered => exact .inr ⟨by simp, rfl, rfl⟩

theorem ReaderStep.move {c c' : Conn} (h : ReaderStep config sh c sh' c') (hc : c.Coherent) :
    Move c.reader.settles c.account sh.pool c'.account sh'.pool := by
  cases h with
  | badProxy pc | noProxy pc =>
    refine (Move.rest c.account sh.pool).cast (by rw [pc]; rfl) rfl ?_ rfl
    simp [Conn.account, pc, (hc.proxy pc).1, Reader.account, Delivery.account]
  | decoded _ _ pc =>
    refine (Move.rest c.account sh.pool).cast (by rw [pc]; rfl) rfl ?_ rfl
    split_ifs <;> simp [Conn.account, pc, Reader.account]
  | rejected error _ _ pc =>
    refine (Move.rest c.account sh.pool).cast (by rw [pc]; rfl) rfl ?_ (pool_recordRejection sh _)
    split_ifs <;> simp [Conn.account, pc, Reader.account]
  | acquired message now pc free =>
    refine (Move.acquire c.account sh.pool free).cast (by rw [pc]; rfl) rfl ?_ rfl
    simp [Conn.account, pc, Reader.account]
  | numbered message now pc =>
    refine (Move.enter c.account sh.pool).cast (by rw [pc]; rfl) rfl ?_ (pool_numbered sh)
    simp only [Conn.account, pc, Reader.account, List.map_append, List.map_singleton,
      numbers_append, Shared.pool]
    abel
  | gauged p pc =>
    refine (Move.record p.messageId c.account sh.pool).cast (by rw [pc]; rfl) rfl ?_ rfl
    simp only [Conn.account, pc, Reader.account, PendingMessage.tokens]
    abel
  | sent p pc _ _ =>
    refine (Move.rest c.account sh.pool).cast (by rw [pc]; rfl) rfl ?_ rfl
    simp only [Conn.account, pc, Reader.account, List.map_append, List.sum_append]
    simp
    abel
  | freed p pc =>
    refine (Move.giveBack _ sh.pool).cast (by rw [pc]; rfl) ?_ rfl rfl
    simp only [Conn.account, pc, Reader.account, PendingMessage.tokens]
    abel
  | abandoned p pc =>
    refine (Move.settle p.messageId _ sh.pool).cast (by rw [pc]; rfl) ?_ rfl (pool_abandoned sh 1)
    simp only [Conn.account, pc, Reader.account]
    abel
  | released p pc =>
    refine (Move.release p.messageId _ sh.pool).cast (by rw [pc]; rfl) ?_ rfl rfl
    simp only [Conn.account, pc, Reader.account]
    abel
  | headed _ pc | proxied _ _ pc | panicked _ pc | framed _ _ _ _ pc | read _ pc | ended pc
  | stopped pc | unsent _ pc | joined pc | closing pc | closed pc =>
    refine (Move.rest c.account sh.pool).cast (by rw [pc]; rfl) rfl ?_ rfl
    simp [Conn.account, pc, Reader.account]

theorem Conn.resume_account {c : Conn} {p : PendingMessage} {attempt : ℕ} {stage : Deliver}
    {progress : Progress} (pc : c.delivery = .delivering p attempt stage)
    (hp : progress ≠ .ended .accepted) : (c.resume p attempt progress).account = c.account := by
  rcases progress with _ | _ | _ | ⟨_ | _ | _⟩
  case ended.accepted => exact absurd rfl hp
  all_goals simp only [Conn.resume, Conn.account, pc, Delivery.account]

theorem DeliveryStep.move {c c' : Conn} (h : DeliveryStep config sh c sh' c') :
    Move c.delivery.settles c.account sh.pool c'.account sh'.pool := by
  cases h with
  | delivered p attempt stage _ progress pc step =>
    rcases step.pool with ⟨rfl, hsettles, hpool⟩ | ⟨hprogress, hsettles, hpool⟩
    · refine (Move.settle p.messageId _ sh.pool).cast (by rw [pc]; exact hsettles) ?_ rfl hpool
      simp only [Conn.account, Conn.resume, pc, Delivery.account, PendingMessage.tokens]
      abel
    · exact (Move.rest c.account sh.pool).cast (by rw [pc]; exact hsettles) rfl
        (Conn.resume_account pc hprogress) hpool
  | received p channel pc front | skipped p channel pc front =>
    refine (Move.rest c.account sh.pool).cast (by rw [pc]; rfl) rfl ?_ rfl
    simp only [Conn.account, pc, front, Delivery.account, List.map_cons, List.sum_cons]
    abel
  | abandoned p pc =>
    refine (Move.settle p.messageId _ sh.pool).cast (by rw [pc]; rfl) ?_ rfl (pool_abandoned sh 1)
    simp only [Conn.account, pc, Delivery.account, PendingMessage.tokens]
    abel
  | released p pc =>
    refine (Move.release p.messageId _ sh.pool).cast (by rw [pc]; rfl) ?_ rfl rfl
    simp only [Conn.account, pc, Delivery.account]
    abel
  | freed p pc =>
    refine (Move.giveBack _ sh.pool).cast (by rw [pc]; rfl) ?_ rfl rfl
    simp only [Conn.account, pc, Delivery.account]
    abel
  | finished pc | gaveUp _ _ pc | held _ _ pc | woke _ _ pc =>
    refine (Move.rest c.account sh.pool).cast (by rw [pc]; rfl) rfl ?_ rfl
    simp only [Conn.account, pc, Delivery.account]

theorem DatagramTask.resume_account {t : DatagramTask} {stage : Deliver} {progress : Progress}
    (pc : t.stage = .delivering stage) (hp : progress ≠ .ended .accepted) :
    (t.resume progress).account = t.account := by
  rcases progress with _ | _ | _ | ⟨_ | _ | _⟩
  case ended.accepted => exact absurd rfl hp
  all_goals simp only [DatagramTask.account, DatagramTask.resume, pc]

theorem TaskStep.move {t t' : DatagramTask} (h : TaskStep config sh t sh' t') :
    Move t.settles t.account sh.pool t'.account sh'.pool := by
  cases h with
  | delivered stage _ progress pc step =>
    rcases step.pool with ⟨rfl, hsettles, hpool⟩ | ⟨hprogress, hsettles, hpool⟩
    · refine (Move.settle t.pending.messageId _ sh.pool).cast
        (by simp only [DatagramTask.settles, pc]; exact hsettles) ?_ rfl hpool
      simp only [DatagramTask.account, DatagramTask.resume, pc, PendingMessage.tokens]
      abel
    · exact (Move.rest t.account sh.pool).cast
        (by simp only [DatagramTask.settles, pc]; exact hsettles) rfl
        (DatagramTask.resume_account pc hprogress) hpool
  | dropped pc =>
    refine (Move.settle t.pending.messageId _ sh.pool).cast
      (by simp only [DatagramTask.settles, pc]) ?_ rfl (pool_dropped sh)
    simp only [DatagramTask.account, pc, PendingMessage.tokens]
    abel
  | released pc =>
    refine (Move.release t.pending.messageId _ sh.pool).cast
      (by simp only [DatagramTask.settles, pc]) ?_ rfl rfl
    simp only [DatagramTask.account, pc]
    abel
  | freed pc =>
    refine (Move.giveBack _ sh.pool).cast (by simp only [DatagramTask.settles, pc]) ?_ rfl rfl
    simp only [DatagramTask.account, pc]
    abel

/-- The loop of `serve_datagrams` and the task it spawns share one account. -/
theorem ReceiverStep.move {r r' : Receiver} {spawned : Option DatagramTask}
    (h : ReceiverStep config sh r sh' r' spawned) :
    Move none r.account sh.pool ((spawned.toList.map DatagramTask.account).sum + r'.account)
      sh'.pool := by
  cases h with
  | cut | stopped | skipped | refused =>
    exact (Move.rest _ sh.pool).cast rfl rfl (by simp [Receiver.account]) rfl
  | received message peer now =>
    exact (Move.arrive _ sh.pool).cast rfl rfl (by simp [Receiver.account]) rfl
  | acquired message peer now free =>
    exact (Move.acquire _ sh.pool free).cast rfl rfl (by simp [Receiver.account]) rfl
  | dropped =>
    exact (Move.discard 0 sh.pool).cast rfl (by simp [Receiver.account])
      (by simp [Receiver.account]) (pool_dropped sh)
  | numbered message peer now =>
    refine (Move.name {.permit} sh.pool).cast rfl ?_ ?_ rfl
    · simp only [Receiver.account]
      abel
    · simp only [Receiver.account, Option.toList_none, List.map_nil, List.sum_nil, Shared.pool]
      abel
  | gauged p =>
    refine (Move.record p.messageId _ sh.pool).cast rfl rfl ?_ rfl
    simp only [Receiver.account, Option.toList_none, List.map_nil, List.sum_nil,
      PendingMessage.tokens]
    abel
  | spawned p =>
    exact (Move.rest _ sh.pool).cast rfl rfl
      (by simp [Receiver.account, DatagramTask.account]) rfl

theorem start_account (peer : Option String) : (Conn.start config peer).account = 0 := by
  cases hp : config.proxyProtocol <;>
    simp [Conn.start, Conn.account, Reader.account, Delivery.account, numbers, hp]

theorem ListenerStep.pool {l l' : Listener} {spawned : Option Conn}
    (h : ListenerStep config sh l sh' l' spawned) :
    sh'.pool = sh.pool ∧ (spawned.toList.map Conn.account).sum = 0 := by
  cases h with
  | spawned peer => exact ⟨rfl, by simp [start_account]⟩
  | _ => exact ⟨rfl, rfl⟩

end Moves

def Action.bulk : Action → Bool
  | .drain .swap | .drain .abandon => true
  | _ => false

section System
variable {config : Config} {s t : System} {a : Action}

theorem account_conn {c : Conn} (hc : c ∈ s.conns) : ∃ rest, s.account = c.account + rest := by
  rcases List.mem_iff_getElem?.mp hc with ⟨i, hi⟩
  rcases tally_set Conn.account hi c with ⟨rest, hsum, -⟩
  refine ⟨rest + (s.tasks.map DatagramTask.account).sum + s.receiver.account +
    numbers s.foreign, ?_⟩
  simp only [System.account, hsum, add_assoc]

theorem account_task {task : DatagramTask} (ht : task ∈ s.tasks) :
    ∃ rest, s.account = task.account + rest := by
  rcases List.mem_iff_getElem?.mp ht with ⟨i, hi⟩
  rcases tally_set DatagramTask.account hi task with ⟨rest, hsum, -⟩
  refine ⟨(s.conns.map Conn.account).sum + rest + s.receiver.account + numbers s.foreign, ?_⟩
  simp only [System.account, hsum]
  abel

theorem move_conn {settled : Option ℕ} {i : ℕ} {c c' : Conn} {sh : Shared}
    (found : s.conns[i]? = some c)
    (h : Move settled c.account s.shared.pool c'.account sh.pool) :
    Move settled s.account s.shared.pool
      (System.account { s with shared := sh, conns := s.conns.set i c' }) sh.pool := by
  rcases tally_set Conn.account found c' with ⟨rest, hold, hnew⟩
  refine (h.frame (rest + (s.tasks.map DatagramTask.account).sum + s.receiver.account +
    numbers s.foreign)).cast rfl ?_ ?_ rfl
  · simp only [System.account, hold, add_assoc]
  · simp only [System.account, hnew, add_assoc]

theorem move_task {settled : Option ℕ} {i : ℕ} {task task' : DatagramTask} {sh : Shared}
    (found : s.tasks[i]? = some task)
    (h : Move settled task.account s.shared.pool task'.account sh.pool) :
    Move settled s.account s.shared.pool
      (System.account { s with shared := sh, tasks := s.tasks.set i task' }) sh.pool := by
  rcases tally_set DatagramTask.account found task' with ⟨rest, hold, hnew⟩
  refine (h.frame (rest + (s.conns.map Conn.account).sum + s.receiver.account +
    numbers s.foreign)).cast rfl ?_ ?_ rfl
  · simp only [System.account, hold]
    abel
  · simp only [System.account, hnew]
    abel

theorem SystemStep.move (h : SystemStep config s a t) (hc : ∀ c ∈ s.conns, c.Coherent)
    (hb : a.bulk = false) :
    Move (s.settles a) s.account s.shared.pool t.account t.shared.pool := by
  cases h with
  | listener i input l sh l' spawned _ step =>
    refine (Move.rest s.account s.shared.pool).cast rfl rfl ?_ step.pool.1
    simp only [System.account, List.map_append, List.sum_append, step.pool.2, add_zero]
  | reader i input c sh c' found step =>
    have hsettles : s.settles (.reader i input) = c.reader.settles := by
      simp [System.settles, found]
    rw [hsettles]
    exact move_conn found (step.move (hc c (List.mem_of_getElem? found)))
  | delivery i c sh c' found step =>
    have hsettles : s.settles (.delivery i) = c.delivery.settles := by
      simp [System.settles, found]
    rw [hsettles]
    exact move_conn found step.move
  | receiver input sh r spawned step =>
    have hmove := step.move.frame
      ((s.conns.map Conn.account).sum + (s.tasks.map DatagramTask.account).sum + numbers s.foreign)
    refine hmove.cast rfl ?_ ?_ rfl
    · simp only [System.account]
      abel
    · simp only [System.account, List.map_append, List.sum_append]
      abel
  | task i task sh task' found step =>
    have hsettles : s.settles (.task i) = task.settles := by simp [System.settles, found]
    rw [hsettles]
    exact move_task found step.move
  | worker | stopAccepting | wait | complete | timeout => exact .rest _ _
  | swap | abandon => cases hb
  | elsewhere =>
    refine (Move.reserve s.account s.shared.pool).cast rfl rfl ?_ rfl
    simp only [System.account, numbers_append, Shared.pool]
    abel

end System
end HyperRuby.Dispatch
