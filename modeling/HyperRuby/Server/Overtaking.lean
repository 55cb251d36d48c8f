import HyperRuby.Server.Steps
import HyperRuby.Worker.Schedule

/-! # How far one kind of work can overtake the other

While a request waits, every thread takes only so many syslog messages until it takes a request,
and the other way round. Added up over all threads, whatever they are in the middle of, this
bounds how much work of the other kind is taken before a waiting request or message is.
-/
namespace HyperRuby.Server
open Library Worker

variable {settings : Settings} {s t u : State} {w : ℕ} {th th' : Thread} {kind : Kind}

def otherKind : Kind → Kind
  | .http => .syslog
  | .syslog => .http

def Thread.took (kind : Kind) (th : Thread) : ℕ := th.taken.countP (fun item => item.kind = kind)

namespace State

def took (s : State) (kind : Kind) : ℕ := (s.threads.map (Thread.took kind)).sum

/-- The work of one kind that waits. -/
def waiting (s : State) : Kind → List WorkItem
  | .http => s.work.map .http
  | .syslog => s.shared.queue.map .syslog

/-- The receivers of a channel are gone, and what it held with them. -/
def gone (s : State) : Kind → Bool
  | .http => s.workGone
  | .syslog => s.shared.receiversGone

end State

section Threads

inductive Turned (settings : Settings) (s : State) (th : Thread) : Thread → Prop where
  | looks (stage stage' : Stage) (place : th.place = .choosing stage)
      (looked : Looked s stage stage') : Turned settings s th { th with place := .choosing stage' }
  | takesMessage (stage : Stage) (d : Dispatch.SyslogDelivery) (place : th.place = .choosing stage)
      (pc : stage = .syslogFirst ∨ stage = .syslogLast ∨ stage = .selecting) :
      Turned settings s th ⟨th.streak + 1, .delivering d, th.taken ++ [.syslog d]⟩
  | takesRequest (stage : Stage) (work : Http.RequestWithCompletion) (streak : UInt32)
      (place : th.place = .choosing stage)
      (pc : settings.enabled = true →
        ((∃ first, stage = .http first) ∨ stage = .selecting) ∧ streak = 0) :
      Turned settings s th ⟨streak, .holding work, th.taken ++ [.http work]⟩
  | calls (work : Http.RequestWithCompletion) (place : th.place = .holding work) :
      Turned settings s th { th with place := .calling work }
  | settles (busy : ∀ stage, th.place ≠ .choosing stage) : Turned settings s th (th.next settings)
  | stops : Turned settings s th th.stop

theorem Worked.turned (h : Worked settings s w th t) :
    ∃ th', Turned settings s th th' ∧ t.threads = s.threads.set w th' := by
  cases h with
  | looks stage stage' place looked => exact ⟨_, .looks stage stage' place looked, rfl⟩
  | takesMessage stage d queue place front pc => exact ⟨_, .takesMessage stage d place pc, rfl⟩
  | takesRequest stage work queue streak place going front pc =>
    exact ⟨_, .takesRequest stage work streak place pc, rfl⟩
  | calls work ruby place converted => exact ⟨_, .calls work place, rfl⟩
  | refuses work place | responds work result place | decides d result place =>
    exact ⟨_, .settles (by simp [place]), rfl⟩
  | stops | dropsRequest | dropsMessage => exact ⟨_, .stops, rfl⟩

/-- The messages a thread may take before it takes a request, while requests wait. A thread that
has found no requests a moment ago may take one whatever its streak. -/
def messagesAhead (ratio : UInt32) (th : Thread) : ℕ :=
  match th.place with
  | .choosing .syslogFirst | .choosing .syslogLast | .choosing .selecting =>
    1 + (ratio.toNat - (th.streak + 1).toNat)
  | .choosing (.http _) | .choosing .ended => 0
  | .holding _ | .calling _ | .delivering _ => ratio.toNat - th.streak.toNat

def requestsAhead (ratio : UInt32) (th : Thread) : ℕ :=
  match th.place with
  | .choosing (.http _) | .choosing .selecting => 1
  | .choosing .syslogFirst | .choosing .syslogLast | .choosing .ended => 0
  | .holding _ | .calling _ | .delivering _ => if th.streak < ratio then 0 else 1

theorem messagesAhead_next :
    messagesAhead settings.workRatio (th.next settings) =
      settings.workRatio.toNat - th.streak.toNat := by
  simp only [messagesAhead, Thread.next, Stage.enter]
  by_cases h : th.streak < settings.workRatio
  · have hsucc := toNat_succ_of_lt h
    have hlt := UInt32.lt_iff_toNat_lt.mp h
    simp only [if_pos h]
    omega
  · have hge := UInt32.lt_iff_toNat_lt.not.mp h
    simp only [if_neg h]
    omega

theorem requestsAhead_next :
    requestsAhead settings.workRatio (th.next settings) =
      if th.streak < settings.workRatio then 0 else 1 := by
  simp only [requestsAhead, Thread.next, Stage.enter]
  by_cases h : th.streak < settings.workRatio
  · simp [h]
  · simp [h]

theorem took_takes (kind : Kind) (streak : UInt32) (place : Place) (item : WorkItem) :
    Thread.took kind ⟨streak, place, th.taken ++ [item]⟩ =
      th.took kind + if item.kind = kind then 1 else 0 := by
  by_cases h : item.kind = kind <;> simp [Thread.took, h]

/-- How much of the other kind a thread may take while work of one kind waits: so much at a
time, and as much again for every piece of the waiting kind it takes. -/
structure Allowance (settings : Settings) (kind : Kind) where
  ahead : Thread → ℕ
  rate : ℕ
  most : ℕ
  ahead_le : ∀ th, ahead th ≤ most
  turned : ∀ {s : State} {th th' : Thread}, Turned settings s th th' → s.waiting kind ≠ [] →
    th'.took (otherKind kind) + ahead th' + rate * th.took kind ≤
      th.took (otherKind kind) + ahead th + rate * th'.took kind

theorem messagesAhead_le (ratio : UInt32) (th : Thread) :
    messagesAhead ratio th ≤ ratio.toNat + 1 := by
  unfold messagesAhead
  split <;> omega

theorem requestsAhead_le (ratio : UInt32) (th : Thread) : requestsAhead ratio th ≤ 1 := by
  unfold requestsAhead
  split
  · exact le_rfl
  · exact le_rfl
  all_goals first | exact Nat.zero_le _ | split_ifs <;> omega

end Threads

section Kinds

theorem messagesAhead_busy (ratio : UInt32) (busy : ∀ stage, th.place ≠ .choosing stage) :
    messagesAhead ratio th = ratio.toNat - th.streak.toNat := by
  unfold messagesAhead
  split <;> first | rfl | exact absurd ‹_› (busy _)

theorem requestsAhead_busy (ratio : UInt32) (busy : ∀ stage, th.place ≠ .choosing stage) :
    requestsAhead ratio th = if th.streak < ratio then 0 else 1 := by
  unfold requestsAhead
  split <;> first | rfl | exact absurd ‹_› (busy _)

theorem Turned.messages (h : Turned settings s th th') (hwork : s.work ≠ []) :
    th'.took .syslog + messagesAhead settings.workRatio th' +
        settings.workRatio.toNat * th.took .http ≤
      th.took .syslog + messagesAhead settings.workRatio th +
        settings.workRatio.toNat * th'.took .http := by
  cases h with
  | looks stage stage' place looked =>
    refine Nat.add_le_add_right (Nat.add_le_add_left ?_ _) _
    cases looked with
    | noDelivery | closed => exact Nat.zero_le _
    | noRequest first empty => exact absurd empty hwork
    | nothing => simp [messagesAhead, place]
  | takesMessage stage d place pc =>
    have hahead : messagesAhead settings.workRatio th =
        1 + (settings.workRatio.toNat - (th.streak + 1).toNat) := by
      rcases pc with rfl | rfl | rfl <;> simp [messagesAhead, place]
    rw [hahead, messagesAhead_busy _ (by simp), took_takes, took_takes]
    simp [WorkItem.kind]
    omega
  | takesRequest stage work streak place pc =>
    rw [messagesAhead_busy _ (by simp), took_takes, took_takes]
    simp [WorkItem.kind, Nat.mul_add]
    omega
  | calls work place =>
    refine Nat.add_le_add_right (Nat.add_le_add_left ?_ _) _
    simp [messagesAhead, place]
  | settles busy =>
    rw [messagesAhead_next, messagesAhead_busy _ busy]
    exact le_rfl
  | stops => exact Nat.add_le_add_right (Nat.add_le_add_left (Nat.zero_le _) _) _

theorem Turned.requests (h : Turned settings s th th') (henabled : settings.enabled = true)
    (hratio : 1 ≤ settings.workRatio) (hqueue : s.shared.queue ≠ []) :
    th'.took .http + requestsAhead settings.workRatio th' + 1 * th.took .syslog ≤
      th.took .http + requestsAhead settings.workRatio th + 1 * th'.took .syslog := by
  cases h with
  | looks stage stage' place looked =>
    refine Nat.add_le_add_right (Nat.add_le_add_left ?_ _) _
    cases looked with
    | noDelivery empty | nothing empty => exact absurd empty hqueue
    | noRequest first =>
      refine (requestsAhead_le _ _).trans ?_
      simp [requestsAhead, place]
    | closed => exact Nat.zero_le _
  | takesMessage stage d place pc =>
    have hahead := requestsAhead_le settings.workRatio
      ⟨th.streak + 1, .delivering d, th.taken ++ [.syslog d]⟩
    rw [took_takes, took_takes]
    simp [WorkItem.kind]
    omega
  | takesRequest stage work streak place pc =>
    obtain ⟨hstage, rfl⟩ := pc henabled
    have hahead : requestsAhead settings.workRatio th = 1 := by
      rcases hstage with ⟨first, rfl⟩ | rfl <;> simp [requestsAhead, place]
    have hzero : (0 : UInt32) < settings.workRatio := by
      rw [UInt32.lt_iff_toNat_lt]
      exact UInt32.le_iff_toNat_le.mp hratio
    rw [hahead, requestsAhead_busy _ (by simp), took_takes, took_takes]
    simp [WorkItem.kind, hzero]
  | calls work place =>
    refine Nat.add_le_add_right (Nat.add_le_add_left ?_ _) _
    simp [requestsAhead, place]
  | settles busy =>
    rw [requestsAhead_next, requestsAhead_busy _ busy]
    exact le_rfl
  | stops => exact Nat.add_le_add_right (Nat.add_le_add_left (Nat.zero_le _) _) _

def allowMessages (settings : Settings) : Allowance settings .http where
  ahead := messagesAhead settings.workRatio
  rate := settings.workRatio.toNat
  most := settings.workRatio.toNat + 1
  ahead_le := messagesAhead_le settings.workRatio
  turned h hwaiting := h.messages (by simpa [State.waiting] using hwaiting)

def allowRequests (henabled : settings.enabled = true) (hratio : 1 ≤ settings.workRatio) :
    Allowance settings .syslog where
  ahead := requestsAhead settings.workRatio
  rate := 1
  most := 1
  ahead_le := requestsAhead_le settings.workRatio
  turned h hwaiting := h.requests henabled hratio (by simpa [State.waiting] using hwaiting)

end Kinds

section Runs

/-- What was taken since, in front of what waits now, is what waited then and what was sent
since. -/
def Flowed (kind : Kind) (s t : State) : Prop :=
  ∃ taken sent, s.took kind + taken.length = t.took kind ∧
    taken ++ t.waiting kind = s.waiting kind ++ sent

/-- No thread is left, and none can come. -/
def State.Deserted (s : State) (kind : Kind) : Prop :=
  s.gone kind = true ∧ ∀ th ∈ s.threads, th.place = .choosing .ended

/-- What a step does to the work of one kind and to the threads. -/
inductive Moved (settings : Settings) (kind : Kind) (s : State) : State → Prop where
  | sends (t : State) (threads : t.threads = s.threads) (gone : t.gone kind = s.gone kind)
      (sent : List WorkItem) (waiting : t.waiting kind = s.waiting kind ++ sent) :
      Moved settings kind s t
  | drops (t : State) (threads : t.threads = s.threads) (deserted : t.Deserted kind) :
      Moved settings kind s t
  | hires (t : State) (threads : t.threads = s.threads ++ [.start settings])
      (receivers : s.gone kind = false) (waiting : t.waiting kind = s.waiting kind) :
      Moved settings kind s t
  | works (w : ℕ) (th : Thread) (t : State) (hget : s.threads[w]? = some th)
      (worked : Worked settings s w th t) : Moved settings kind s t

theorem ended_of_http (h : th.http = .ended) : th.place = .choosing .ended := by
  unfold Thread.http at h
  split at h <;> simp_all

theorem ended_of_syslog (h : th.syslog = none) : th.place = .choosing .ended := by
  unfold Thread.syslog at h
  split at h <;> simp_all

theorem Moved.other (threads : t.threads = s.threads) (gone : t.gone kind = s.gone kind)
    (waiting : t.waiting kind = s.waiting kind) : Moved settings kind s t :=
  .sends t threads gone [] (waiting.trans (List.append_nil _).symm)

theorem Step.moved {action : Action} (kind : Kind) (h : Step settings s action t) :
    Moved settings kind s t := by
  cases h with
  | http action e admits step sent =>
    cases kind with
    | http =>
      obtain ⟨new, hqueue⟩ := sent.queue
      refine .sends _ rfl sent.receivers (new.map .http) ?_
      have hwork : (s.withHttp e).work = s.work ++ new := hqueue
      simp [State.waiting, hwork]
    | syslog => exact .other rfl rfl rfl
  | syslog action u admits step sent =>
    cases kind with
    | http => exact .other rfl rfl rfl
    | syslog =>
      obtain ⟨new, hqueue⟩ := sent.queue
      refine .sends _ rfl sent.receivers (new.map .syslog) ?_
      have hwork : (s.withSyslog u).shared.queue = s.shared.queue ++ new := hqueue
      simp [State.waiting, hwork]
  | hires receivers =>
    cases kind with
    | http => exact .hires _ rfl receivers.1 rfl
    | syslog => exact .hires _ rfl receivers.2 rfl
  | works w event th _ hget worked => exact .works w th t hget worked
  | closesWork | closesSyslog => cases kind <;> exact .other rfl rfl rfl
  | dropsWork oneshots ended =>
    cases kind with
    | http => exact .drops _ rfl ⟨rfl, fun th hth => ended_of_http (ended th hth)⟩
    | syslog => exact .other rfl rfl rfl
  | dropsSyslog sh ended step receivers =>
    cases kind with
    | http => exact .other rfl rfl rfl
    | syslog => exact .drops _ rfl ⟨receivers, fun th hth => ended_of_syslog (ended th hth)⟩

theorem Worked.going (h : Worked settings s w th t) : th.place ≠ .choosing .ended := by
  cases h with
  | looks stage stage' place looked =>
    rw [place]
    simpa using looked.going
  | takesMessage stage d queue place front pc =>
    rw [place]
    rcases pc with rfl | rfl | rfl <;> simp
  | takesRequest stage work queue streak place going | stops stage place going =>
    rw [place]
    simpa using going
  | calls work ruby place | refuses work place | responds work result place
  | decides d result place | dropsMessage d place =>
    simp [place]
  | dropsRequest work place => rcases place with place | place <;> simp [place]

theorem flowed_of_set (taken : List WorkItem) (hget : s.threads[w]? = some th)
    (hset : t.threads = s.threads.set w th') (htook : th'.took kind = th.took kind + taken.length)
    (hwaiting : taken ++ t.waiting kind = s.waiting kind) : Flowed kind s t := by
  rcases tally_set (Thread.took kind) hget th' with ⟨rest, hs, ht⟩
  refine ⟨taken, [], ?_, by simpa using hwaiting⟩
  rw [State.took, State.took, hset, hs, ht]
  omega

/-- What a thread takes comes off the front. -/
theorem Worked.flowed (kind : Kind) (hget : s.threads[w]? = some th)
    (h : Worked settings s w th t) : Flowed kind s t := by
  cases h with
  | takesMessage stage d queue place front pc =>
    cases kind with
    | http => exact flowed_of_set [] hget rfl (took_takes _ _ _ _) rfl
    | syslog =>
      refine flowed_of_set [.syslog d] hget rfl (took_takes _ _ _ _) ?_
      simp [State.waiting, State.setThread, front]
  | takesRequest stage work queue streak place going front pc =>
    cases kind with
    | http =>
      refine flowed_of_set [.http work] hget rfl (took_takes _ _ _ _) ?_
      simp [State.waiting, State.setThread, front]
    | syslog => exact flowed_of_set [] hget rfl (took_takes _ _ _ _) rfl
  | looks | calls | refuses | responds | decides | stops | dropsRequest | dropsMessage =>
    cases kind <;> exact flowed_of_set [] hget rfl rfl rfl

theorem Flowed.trans (h : Flowed kind s t) (h' : Flowed kind t u) : Flowed kind s u := by
  obtain ⟨taken, sent, htook, hwaiting⟩ := h
  obtain ⟨taken', sent', htook', hwaiting'⟩ := h'
  refine ⟨taken ++ taken', sent ++ sent', ?_, ?_⟩
  · rw [List.length_append]
    omega
  · rw [List.append_assoc, hwaiting', ← List.append_assoc, hwaiting, List.append_assoc]

theorem Flowed.waiting_ne (h : Flowed kind s t)
    (hfew : t.took kind < s.took kind + (s.waiting kind).length) : t.waiting kind ≠ [] := by
  obtain ⟨taken, sent, htook, hwaiting⟩ := h
  intro hnil
  have hlength := congrArg List.length hwaiting
  simp only [List.length_append, hnil, List.length_nil] at hlength
  omega

/-- What the threads may still take of the other kind. -/
def Allowance.sum (a : Allowance settings kind) (s : State) : ℕ := (s.threads.map a.ahead).sum

theorem Worked.pays (a : Allowance settings kind) (hget : s.threads[w]? = some th)
    (h : Worked settings s w th t) (hwaiting : s.waiting kind ≠ []) :
    t.took (otherKind kind) + a.sum t + a.rate * s.took kind ≤
      s.took (otherKind kind) + a.sum s + a.rate * t.took kind := by
  obtain ⟨th', hturned, hset⟩ := h.turned
  have hpaid := a.turned hturned hwaiting
  rcases tally_set (Thread.took (otherKind kind)) hget th' with ⟨others, hothers, hothers'⟩
  rcases tally_set a.ahead hget th' with ⟨ahead, hahead, hahead'⟩
  rcases tally_set (Thread.took kind) hget th' with ⟨own, hown, hown'⟩
  simp only [State.took, Allowance.sum, hset, hothers, hothers', hahead, hahead', hown, hown',
    Nat.mul_add]
  omega

/-- Where a run has got to: work of one kind has flowed as long as there are threads, and until
all that waited is taken, what was taken of the other kind is paid for. -/
structure Overtaken (a : Allowance settings kind) (s t : State) : Prop where
  later : s.took kind ≤ t.took kind
  flow : Flowed kind s t ∨ t.Deserted kind
  paid : t.took kind < s.took kind + (s.waiting kind).length →
    t.took (otherKind kind) + a.sum t + a.rate * s.took kind ≤
      s.took (otherKind kind) + a.rate * t.took kind + a.most * t.threads.length

theorem Overtaken.start (a : Allowance settings kind) (s : State) : Overtaken a s s where
  later := le_rfl
  flow := .inl ⟨[], [], rfl, by simp⟩
  paid := by
    intro _
    have hsum : a.sum s ≤ s.threads.length * a.most :=
      tally_le_mul a.ahead le_rfl fun th _ => a.ahead_le th
    rw [Nat.mul_comm a.most]
    omega

theorem Overtaken.rest {a : Allowance settings kind} (h : Overtaken a s t)
    (threads : u.threads = t.threads) (flow : Flowed kind s u ∨ u.Deserted kind) :
    Overtaken a s u := by
  have htook : ∀ k, u.took k = t.took k := fun k => by rw [State.took, threads, State.took]
  have hsum : a.sum u = a.sum t := by rw [Allowance.sum, threads, Allowance.sum]
  refine ⟨htook kind ▸ h.later, flow, ?_⟩
  rw [htook, htook, hsum, threads]
  exact h.paid

theorem took_hired (kind : Kind) (threads : u.threads = t.threads ++ [.start settings]) :
    u.took kind = t.took kind := by
  simp [State.took, threads, Thread.took, Thread.start, Thread.next]

theorem Overtaken.hires {a : Allowance settings kind} (h : Overtaken a s t)
    (threads : u.threads = t.threads ++ [.start settings]) (receivers : t.gone kind = false)
    (waiting : u.waiting kind = t.waiting kind) : Overtaken a s u := by
  have hnew := a.ahead_le (.start settings)
  have hsum : a.sum u = a.sum t + a.ahead (.start settings) := by simp [Allowance.sum, threads]
  refine ⟨took_hired kind threads ▸ h.later, .inl ?_, ?_⟩
  · rcases h.flow with hflow | hdeserted
    · refine hflow.trans ⟨[], [], (took_hired kind threads).symm, ?_⟩
      simp [waiting]
    · rw [hdeserted.1] at receivers
      cases receivers
  · intro hfew
    rw [took_hired kind threads] at hfew
    have hpaid := h.paid hfew
    rw [took_hired _ threads, took_hired _ threads, hsum, threads, List.length_append,
      List.length_singleton, Nat.mul_add]
    omega

theorem Overtaken.works {a : Allowance settings kind} (h : Overtaken a s t)
    (hget : t.threads[w]? = some th) (worked : Worked settings t w th u) : Overtaken a s u := by
  have hflow : Flowed kind s t := by
    rcases h.flow with hflow | hdeserted
    · exact hflow
    · exact absurd (hdeserted.2 th (List.mem_of_getElem? hget)) worked.going
  have hstep := worked.flowed kind hget
  have hlater : t.took kind ≤ u.took kind := by
    obtain ⟨taken, -, htook, -⟩ := hstep
    omega
  refine ⟨h.later.trans hlater, .inl (hflow.trans hstep), ?_⟩
  intro hfew
  have hbefore : t.took kind < s.took kind + (s.waiting kind).length := by omega
  have hpaid := h.paid hbefore
  have hpays := worked.pays a hget (hflow.waiting_ne hbefore)
  have hlength : u.threads.length = t.threads.length := by
    obtain ⟨th', -, hset⟩ := worked.turned
    rw [hset, List.length_set]
  rw [hlength]
  omega

theorem Overtaken.step {a : Allowance settings kind} {action : Action} (h : Overtaken a s t)
    (hstep : Step settings t action u) : Overtaken a s u := by
  cases hstep.moved kind with
  | sends _ threads gone sent waiting =>
    have htook : u.took kind = t.took kind := by rw [State.took, threads, State.took]
    apply h.rest threads
    rcases h.flow with hflow | hdeserted
    · exact .inl (hflow.trans ⟨[], sent, htook.symm, waiting⟩)
    · exact .inr ⟨gone.trans hdeserted.1, threads ▸ hdeserted.2⟩
  | drops _ threads deserted => exact h.rest threads (.inr deserted)
  | hires _ threads receivers waiting => exact h.hires threads receivers waiting
  | works w th _ hget worked => exact h.works hget worked

theorem run_overtaken (a : Allowance settings kind)
    (h : Reached (State.exec settings) (fun _ _ => True) s t) : Overtaken a s t :=
  h.invariant (Overtaken a s) (.start a s) fun _ _ _ _ _ ih he => ih.step (exec_step he)

/-- While the work of one kind at a place of its channel waits, it moves up by what is taken of
its kind, and no more is taken of the other kind than is allowed. -/
theorem overtaken_by (a : Allowance settings kind)
    (h : Reached (State.exec settings) (fun _ _ => True) s t) {n : ℕ}
    (hn : n < (s.waiting kind).length) (hwaits : t.took kind ≤ s.took kind + n) :
    (t.gone kind = false →
        (t.waiting kind)[n - (t.took kind - s.took kind)]? = (s.waiting kind)[n]?) ∧
      t.took (otherKind kind) ≤
        s.took (otherKind kind) + a.rate * n + a.most * t.threads.length := by
  have hrun := run_overtaken a h
  constructor
  · intro hopen
    rcases hrun.flow with ⟨taken, sent, htook, hwaiting⟩ | hdeserted
    · have hget : (taken ++ t.waiting kind)[n]? = (s.waiting kind ++ sent)[n]? := by rw [hwaiting]
      rw [List.getElem?_append_right (by omega), List.getElem?_append_left hn] at hget
      rw [← hget]
      congr 1
      omega
    · rw [hdeserted.1] at hopen
      cases hopen
  · have hpaid := hrun.paid (by omega)
    have hrate : a.rate * t.took kind ≤ a.rate * s.took kind + a.rate * n := by
      rw [← Nat.mul_add]
      exact Nat.mul_le_mul_left _ hwaits
    omega

/-- Neither kind of work starves the other, however many threads there are and whatever they are
in the middle of. While the request with `n` requests in front of it waits, the threads take at
most `work_ratio` messages for each of the `n`, and once more as many and one for each thread.
While the message with `n` messages in front of it waits, they take at most `n` requests and one
for each thread. -/
theorem overtaking_bounded (h : Reached (State.exec settings) (fun _ _ => True) s t) (n : ℕ) :
    (n < s.work.length → t.took .http ≤ s.took .http + n →
      (t.workGone = false → t.work[n - (t.took .http - s.took .http)]? = s.work[n]?) ∧
        t.took .syslog ≤ s.took .syslog + settings.workRatio.toNat * n +
          (settings.workRatio.toNat + 1) * t.threads.length) ∧
    (settings.enabled = true → 1 ≤ settings.workRatio →
      n < s.shared.queue.length → t.took .syslog ≤ s.took .syslog + n →
      (t.shared.receiversGone = false →
        t.shared.queue[n - (t.took .syslog - s.took .syslog)]? = s.shared.queue[n]?) ∧
        t.took .http ≤ s.took .http + n + t.threads.length) := by
  constructor
  · intro hn hwaits
    have hover := overtaken_by (allowMessages settings) h (by simpa [State.waiting] using hn) hwaits
    refine ⟨fun hopen => ?_, hover.2⟩
    have hmoved := hover.1 hopen
    rw [State.waiting, State.waiting, List.getElem?_map, List.getElem?_map] at hmoved
    exact Option.map_injective (fun _ _ => WorkItem.http.inj) hmoved
  · intro henabled hratio hn hwaits
    have hover := overtaken_by (allowRequests henabled hratio) h
      (by simpa [State.waiting] using hn) hwaits
    refine ⟨fun hopen => ?_, ?_⟩
    · have hmoved := hover.1 hopen
      rw [State.waiting, State.waiting, List.getElem?_map, List.getElem?_map] at hmoved
      exact Option.map_injective (fun _ _ => WorkItem.syslog.inj) hmoved
    · simpa [allowRequests, otherKind] using hover.2

/-- A request waits while a message is taken and decided. -/
theorem overtaking_bounded_shared :
    ∃ s t : State, s.Reachable .shared ∧ Reached (State.exec .shared) (fun _ _ => True) s t ∧
      (s.work.length = 1 ∧ s.took .syslog = 0 ∧ t.took .syslog = 1 ∧ t.threads.length = 1) ∧
      t.work[0]? = s.work[0]? ∧
      t.took .syslog ≤
        s.took .syslog + (Settings.shared.workRatio.toNat + 1) * t.threads.length := by
  have hbefore : ∃ s, run (State.exec .shared) (fun _ _ => True) (.start .shared)
      (requesting 0 ++ messaging ++ [.hire]) = some s ∧
        (s.work.length = 1 ∧ s.took .syslog = 0 ∧ s.took .http = 0) ∧
        (run (State.exec .shared) (fun _ _ => True) s
          [.thread 0 (.choose .http), .thread 0 (.returns .other true)]).any (fun t =>
            t.took .syslog = 1 ∧ t.took .http = 0 ∧ t.threads.length = 1 ∧ t.workGone = false) :=
    exists_run _ (by decide +kernel)
  rcases hbefore with ⟨s, hs, ⟨hwork, hnone, hrequests⟩, hafter⟩
  rcases exists_reached _ hafter with ⟨t, ht, htook, htaken, hthreads, hopen⟩
  have hover := (overtaking_bounded ht 0).1 (by omega) (by omega)
  refine ⟨s, t, .of_run .start hs, ht, ⟨hwork, hnone, htook, hthreads⟩, ?_, ?_⟩
  · simpa [htaken, hrequests] using hover.1 hopen
  · simpa using hover.2

end Runs
end HyperRuby.Server
