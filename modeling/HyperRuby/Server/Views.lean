import HyperRuby.Server.Steps
import HyperRuby.Worker.Stopping

/-! # The server as its two sides see it

The hand-off of requests and the syslog system were each described with threads of their own
that may be away for the other side's work. Every step of the whole server is such a step, or no
step at all, on either side.
-/
namespace HyperRuby.Server
open Library

variable {settings : Settings} {s t : State} {w : ℕ} {th : Thread}

section Frames

theorem http_withHttp {e : Http.Exchange} (h : e.threads = s.http.threads) :
    (s.withHttp e).http = e := by
  cases e
  cases h
  rfl

theorem syslog_withSyslog {u : Dispatch.System} (h : u.workers = s.syslog.workers) :
    (s.withSyslog u).syslog = u := by
  cases u
  cases h
  rfl

theorem http_setThread (th : Thread) :
    (s.setThread w th).http = { s.http with threads := s.http.threads.set w th.http } := by
  simp [State.http, State.setThread, List.map_set]

theorem http_get (h : s.threads[w]? = some th) : s.http.threads[w]? = some th.http := by
  simp [State.http, h]

theorem http_setThread_of_eq (th' : Thread) (h : s.threads[w]? = some th)
    (heq : th'.http = th.http) : (s.setThread w th').http = s.http := by
  simp [State.http, State.setThread, map_set_of_eq h heq]

theorem syslog_setThread_of_eq (th' : Thread) (h : s.threads[w]? = some th)
    (heq : th'.syslog = th.syslog) : (s.setThread w th').syslog = s.syslog := by
  simp [State.syslog, State.setThread, filterMap_set_of_eq h heq]

theorem http_choosing {stage : Worker.Stage} (place : th.place = .choosing stage)
    (going : stage ≠ .ended) : th.http = .idle := by
  cases stage <;> simp_all [Thread.http]

theorem syslog_choosing {stage : Worker.Stage} (place : th.place = .choosing stage)
    (going : stage ≠ .ended) : th.syslog = some none := by
  cases stage <;> simp_all [Thread.syslog]

@[simp]
theorem http_next : (th.next settings).http = .idle :=
  http_choosing rfl (Worker.enter_ne_ended _ _)

@[simp]
theorem syslog_next : (th.next settings).syslog = some none :=
  syslog_choosing rfl (Worker.enter_ne_ended _ _)

end Frames

section Requests

abbrev HttpRun (settings : Settings) : Http.Exchange → Http.Exchange → Prop :=
  Reached (Http.Exchange.exec settings.http) (fun _ _ => True)

theorem http_thread (event : Http.ThreadEvent) {e : Http.Exchange}
    (hget : s.threads[w]? = some th) (he : s.http.work w th.http event = some e) :
    HttpRun settings s.http e := by
  have hexec : s.http.exec settings.http (.thread w event) = some e := by
    rw [Http.Exchange.exec, http_get hget]
    exact he
  exact .step .start trivial hexec

theorem http_stops (hget : s.threads[w]? = some th) (hidle : th.http = .idle) :
    HttpRun settings s.http (s.setThread w th.stop).http := by
  refine http_thread .quit hget ?_
  rw [hidle, http_setThread]
  rfl

theorem http_responds {work : Http.RequestWithCompletion} {response : Http.HyperResponse} :
    (s.respond settings w th work response).http = s.http.respond w work response := by
  rw [State.respond, http_setThread, http_next]
  rfl

/-- What the threads do is what the threads of the hand-off do, who are idle over messages. -/
theorem worked_http (hget : s.threads[w]? = some th) (h : Worked settings s w th t) :
    HttpRun settings s.http t.http := by
  cases h with
  | looks stage stage' place looked =>
    have hidle := http_choosing place looked.going
    by_cases hended : stage' = .ended
    · subst hended
      exact http_stops hget hidle
    · rw [http_setThread_of_eq _ hget ((http_choosing rfl hended).trans hidle.symm)]
      exact .start
  | takesMessage stage d queue place front pc =>
    have going : stage ≠ .ended := by
      rintro rfl
      simp at pc
    rw [http_setThread_of_eq (s := { s with shared := { s.shared with queue := queue } }) _ hget]
    · exact .start
    · exact (http_choosing place going).symm
  | takesRequest stage work queue streak place going front pc =>
    refine http_thread .proceed hget ?_
    have hqueue : s.http.queue = work :: queue := front
    simp only [http_choosing place going, Http.Exchange.work, Http.Exchange.threadProceeds,
      Http.Exchange.take, hqueue, http_setThread]
    rfl
  | calls work ruby place converted =>
    refine http_thread .proceed hget ?_
    have hholding : th.http = .holding work := by rw [Thread.http, place]
    simp only [hholding, Http.Exchange.work, Http.Exchange.threadProceeds, converted,
      http_setThread]
    rfl
  | refuses work place failed =>
    refine http_thread .proceed hget ?_
    have hholding : th.http = .holding work := by rw [Thread.http, place]
    simp only [hholding, Http.Exchange.work, Http.Exchange.threadProceeds, failed, http_responds]
  | responds work result place =>
    refine http_thread (.result result) hget ?_
    have hcalling : th.http = .calling work := by rw [Thread.http, place]
    simp only [hcalling, Http.Exchange.work, http_responds]
  | decides d result place =>
    have hidle : th.http = .idle := by rw [Thread.http, place]
    rw [http_setThread_of_eq (s := { s with shared := s.shared.answer d (.send result) }) _ hget
      (http_next.trans hidle.symm)]
    exact .start
  | stops stage place going => exact http_stops hget (http_choosing place going)
  | dropsRequest work place =>
    refine http_thread .quit hget ?_
    rcases place with place | place
    · have hholding : th.http = .holding work := by rw [Thread.http, place]
      simp only [hholding, Http.Exchange.work, Http.Exchange.quit, http_setThread]
      rfl
    · have hcalling : th.http = .calling work := by rw [Thread.http, place]
      simp only [hcalling, Http.Exchange.work, Http.Exchange.quit, http_setThread]
      rfl
  | dropsMessage d place =>
    have hidle : th.http = .idle := by rw [Thread.http, place]
    exact http_stops (s := { s with shared := s.shared.answer d .dropSender }) hget hidle

end Requests

section Messages

abbrev SyslogRun (settings : Settings) : Dispatch.System → Dispatch.System → Prop :=
  Reached (Dispatch.System.exec settings.syslog) (fun _ _ => True)

theorem syslog_worker (move : Dispatch.WorkerMove) {u u' : Dispatch.System}
    (he : u.workerStep move = some u') : SyslogRun settings u u' :=
  .step (a := .worker move) .start trivial he

/-- The place of a thread among the workers of the syslog side. -/
def State.worker (s : State) (w : ℕ) : ℕ := rank Thread.syslog s.threads w

theorem syslog_get {held : Option Dispatch.SyslogDelivery} (hget : s.threads[w]? = some th)
    (h : th.syslog = some held) : s.syslog.workers[s.worker w]? = some held :=
  get_rank hget h

theorem syslog_setThread {th' : Thread} {held held' : Option Dispatch.SyslogDelivery}
    (hget : s.threads[w]? = some th) (h : th.syslog = some held) (h' : th'.syslog = some held') :
    (s.setThread w th').syslog =
      { s.syslog with workers := s.syslog.workers.set (s.worker w) held' } := by
  simp only [State.syslog, State.setThread, filterMap_set hget h h']
  rfl

theorem syslog_stop {held : Option Dispatch.SyslogDelivery} (hget : s.threads[w]? = some th)
    (h : th.syslog = some held) :
    (s.setThread w th.stop).syslog =
      { s.syslog with workers := s.syslog.workers.eraseIdx (s.worker w) } := by
  have hstop : th.stop.syslog = none := rfl
  simp only [State.syslog, State.setThread, filterMap_unset hget h hstop]
  rfl

theorem syslog_stops (hget : s.threads[w]? = some th) (hfree : th.syslog = some none) :
    SyslogRun settings s.syslog (s.setThread w th.stop).syslog := by
  refine syslog_worker (.quit (s.worker w)) ?_
  simp only [Dispatch.System.workerStep, syslog_get hget hfree, syslog_stop hget hfree]

theorem worked_syslog (hget : s.threads[w]? = some th) (h : Worked settings s w th t) :
    SyslogRun settings s.syslog t.syslog := by
  cases h with
  | looks stage stage' place looked =>
    have hfree := syslog_choosing place looked.going
    by_cases hended : stage' = .ended
    · subst hended
      exact syslog_stops hget hfree
    · rw [syslog_setThread_of_eq _ hget ((syslog_choosing rfl hended).trans hfree.symm)]
      exact .start
  | takesMessage stage d queue place front pc =>
    have going : stage ≠ .ended := by
      rintro rfl
      simp at pc
    have hfree := syslog_choosing place going
    refine syslog_worker (.take (s.worker w)) ?_
    have hqueue : s.syslog.shared.queue = d :: queue := front
    rw [syslog_setThread (s := { s with shared := { s.shared with queue := queue } }) hget hfree
      rfl]
    simp only [Dispatch.System.workerStep, syslog_get hget hfree, hqueue]
    rfl
  | takesRequest stage work queue streak place going front pc =>
    rw [syslog_setThread_of_eq (s := { s with work := queue }) _ hget]
    · exact .start
    · exact (syslog_choosing place going).symm
  | calls work ruby place converted =>
    have hfree : th.syslog = some none := by rw [Thread.syslog, place]
    rw [syslog_setThread_of_eq (s := { s with calls := s.calls ++ [work.id] }) _ hget]
    · exact .start
    · exact hfree.symm
  | refuses work place failed =>
    have hfree : th.syslog = some none := by rw [Thread.syslog, place]
    rw [State.respond, syslog_setThread_of_eq (s := s.withHttp _) _ hget
      (syslog_next.trans hfree.symm)]
    exact .start
  | responds work result place =>
    have hfree : th.syslog = some none := by rw [Thread.syslog, place]
    rw [State.respond, syslog_setThread_of_eq (s := s.withHttp _) _ hget
      (syslog_next.trans hfree.symm)]
    exact .start
  | decides d result place =>
    have hheld : th.syslog = some (some d) := by rw [Thread.syslog, place]
    refine syslog_worker (.answer (s.worker w) result) ?_
    rw [syslog_setThread (s := { s with shared := s.shared.answer d (.send result) }) hget hheld
      syslog_next]
    simp only [Dispatch.System.workerStep, syslog_get hget hheld]
    rfl
  | stops stage place going => exact syslog_stops hget (syslog_choosing place going)
  | dropsRequest work place =>
    have hfree : th.syslog = some none := by
      rcases place with place | place <;> rw [Thread.syslog, place]
    exact syslog_stops (s := s.withHttp _) hget hfree
  | dropsMessage d place =>
    have hheld : th.syslog = some (some d) := by rw [Thread.syslog, place]
    refine syslog_worker (.quit (s.worker w)) ?_
    rw [syslog_stop (s := { s with shared := s.shared.answer d .dropSender }) hget hheld]
    simp only [Dispatch.System.workerStep, syslog_get hget hheld]
    rfl

end Messages

section Server

theorem exec_http {action : Action} (he : s.exec settings action = some t) :
    HttpRun settings s.http t.http := by
  cases exec_step he with
  | http action e admits step sent =>
    rw [http_withHttp sent.threads]
    exact .step .start trivial step
  | syslog | closesWork | closesSyslog | dropsSyslog => exact .start
  | hires =>
    refine .step (a := .hire) .start trivial ?_
    simp only [State.http, List.map_append, List.map_singleton, Thread.start, http_next]
    rfl
  | works w event th _ hget worked => exact worked_http hget worked
  | dropsWork oneshots ended step => exact .step (a := .disconnect) .start trivial step

/-- Every step shows on the side of the syslog messages. -/
theorem exec_syslog {action : Action} (he : s.exec settings action = some t) :
    SyslogRun settings s.syslog t.syslog := by
  cases exec_step he with
  | http | closesWork | closesSyslog | dropsWork => exact .start
  | syslog action u admits step sent =>
    rw [syslog_withSyslog sent.workers]
    exact .step .start trivial step
  | hires receivers =>
    refine syslog_worker .hire ?_
    have hopen : s.syslog.shared.receiversGone = false := receivers.2
    simp only [Dispatch.System.workerStep, hopen]
    simp [State.syslog, Thread.start]
  | works w event th _ hget worked => exact worked_syslog hget worked
  | dropsSyslog sh ended step => exact syslog_worker .dropReceivers step

/-- Whatever the order in which the calls of `handle_request`, the syslog tasks and the threads
of `run_worker` take their steps, each side of the server goes through a run of its own. -/
theorem server_refines (h : s.Reachable settings) :
    Http.Run settings.http s.http ∧ s.syslog.Reachable settings.syslog := by
  constructor
  · exact h.view State.http fun _ _ _ => exec_http
  · exact h.view State.syslog fun _ _ _ => exec_syslog

/-- A thread takes a message ahead of the request that waits, and then the request. -/
theorem server_refines_shared :
    ∃ s : State, s.Reachable .shared ∧
      s.threads.map (fun th => th.taken.map Worker.WorkItem.kind) = [[.syslog, .http]] ∧
      Http.Run Settings.shared.http s.http ∧ s.syslog.Reachable Settings.shared.syslog := by
  have hrun : ∃ s : State, s.Reachable .shared ∧
      s.threads.map (fun th => th.taken.map Worker.WorkItem.kind) = [[.syslog, .http]] :=
    exists_reached
      (requesting 0 ++ messaging ++ [.hire, .thread 0 (.choose .http),
        .thread 0 (.returns .other true), .thread 0 (.choose .http)])
      (by decide +kernel)
  rcases hrun with ⟨s, hs, htaken⟩
  exact ⟨s, hs, htaken, server_refines hs⟩

end Server
end HyperRuby.Server
