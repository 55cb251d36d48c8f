import HyperRuby.Server.Stop

/-! # Calls that wait while `stop` does

`stop` waits for the server task with the GVL held, and a worker answers only with the GVL. A
call that has no answer when `stop` is called gets none while `stop` waits, keeps its connection
open, and so keeps `stop` waiting for all of the ten seconds.
-/
namespace HyperRuby.Server
open Library

section Calls
variable {settings : Settings} {s t : State} {action : Action} {i rx : ℕ} {isGrpc : Bool}
  {h : Http.Handler}

theorem handle_waits {config : Http.HandoffConfig} {e : Http.Exchange}
    {event : Http.HandlerEvent} (hstage : h.stage = .waiting rx isGrpc)
    (hrx : Unanswered e.oneshots rx) (hdrop : event ≠ .drop) :
    e.handle config i h event = none := by
  cases event with
  | body collected => simp [Http.Exchange.handle, hstage]
  | expire => simp [Http.Exchange.handle, hstage]
  | proceed receiver =>
    simp only [Http.Exchange.handle, Http.Exchange.proceed, hstage]
    cases ho : e.oneshots[rx]? with
    | none => rfl
    | some o => rcases hrx o ho with hempty | hdropped <;> simp [*]
  | drop => exact absurd rfl hdrop

/-- A call waits on for its answer, and time does not go back. -/
structure Waits (i rx : ℕ) (h : Http.Handler) (s t : State) : Prop where
  call : t.handlers[i]? = some h
  unanswered : Unanswered t.oneshots rx
  now : s.now ≤ t.now

theorem http_waits (hstage : h.stage = .waiting rx isGrpc) (hget : s.handlers[i]? = some h)
    (hrx : Unanswered s.oneshots rx) {action : Http.Action}
    (hdrop : action ≠ .handler i .drop) (he : s.exec settings (.http action) = some t) :
    Waits i rx h s t := by
  cases exec_step he with
  | http _ e admits step =>
    cases action with
    | arrive parts declaredLen =>
      cases step
      refine ⟨?_, hrx, le_rfl⟩
      exact List.getElem?_append_left (List.getElem?_eq_some_iff.mp hget).1 |>.trans hget
    | handler j event =>
      rcases Option.bind_eq_some_iff.mp step with ⟨hj, hgetj, hrest⟩
      have hhandled := handle_handled settings.capacityPos hrest
      have hne : j ≠ i := by
        rintro rfl
        obtain rfl : h = hj := Option.some_injective _ (hget.symm.trans hgetj)
        rw [handle_waits hstage hrx (by rintro rfl; exact hdrop rfl)] at hrest
        cases hrest
      obtain ⟨stage, hhandlers⟩ := hhandled.stage
      refine ⟨?_, hhandled.unanswered rx hrx, hhandled.now.ge⟩
      change e.handlers[i]? = some h
      rw [hhandlers]
      exact (List.getElem?_set_ne hne).trans hget
    | tick =>
      cases step
      exact ⟨hget, hrx, Nat.le_succ _⟩
    | hire | thread | disconnect => cases admits

/-- No step without the GVL answers a call. -/
theorem exec_waits (hstage : h.stage = .waiting rx isGrpc) (hget : s.handlers[i]? = some h)
    (hrx : Unanswered s.oneshots rx) (hgvl : action.withoutGvl = true)
    (hdrop : action ≠ .http (.handler i .drop)) (he : s.exec settings action = some t) :
    Waits i rx h s t := by
  cases action with
  | http action => exact http_waits hstage hget hrx (by rintro rfl; exact hdrop rfl) he
  | syslog action =>
    cases exec_step he
    exact ⟨hget, hrx, le_rfl⟩
  | thread w event =>
    cases event with
    | choose select =>
      rcases Option.bind_eq_some_iff.mp he with ⟨th, -, hrun⟩
      simp only [State.runWorker] at hrun
      split at hrun
      · rcases Option.map_eq_some_iff.mp hrun with ⟨seen, -, rfl⟩
        exact ⟨hget, hrx, le_rfl⟩
      · cases hrun
    | convert | returns | quit => cases hgvl
  | closeWork | closeSyslog =>
    cases exec_step he
    exact ⟨hget, hrx, le_rfl⟩
  | hire | dropWork | dropSyslog => cases hgvl

end Calls

section Stalled
variable {settings : Settings} {p q : Process} {start i rx : ℕ} {isGrpc : Bool}
  {h : Http.Handler}

/-- The call waits, and the server task has not ended, or has with its ten seconds over. -/
structure Stalled (start i rx : ℕ) (h : Http.Handler) (p : Process) : Prop where
  orderly : Orderly p
  call : p.server.handlers[i]? = some h
  unanswered : Unanswered p.server.oneshots rx
  started : start ≤ p.server.now
  noticed : ∀ since, p.loop = .draining since → start ≤ since
  late : ∀ timedOut, p.loop = .ended timedOut →
    timedOut = true ∧ start + closeTimeout ≤ p.server.now

theorem Stalled.waits (hs : Stalled start i rx h p) (horder : Orderly q) (hloop : q.loop = p.loop)
    (hw : Waits i rx h p.server q.server) : Stalled start i rx h q where
  orderly := horder
  call := hw.call
  unanswered := hw.unanswered
  started := hs.started.trans hw.now
  noticed since hdraining := hs.noticed since (hloop ▸ hdraining)
  late timedOut hended :=
    have hlate := hs.late timedOut (hloop ▸ hended)
    ⟨hlate.1, hlate.2.trans hw.now⟩

theorem Stalled.rests (hs : Stalled start i rx h p) (horder : Orderly q) (hloop : q.loop = p.loop)
    (hserver : q.server = p.server) : Stalled start i rx h q :=
  hs.waits horder hloop ⟨hserver ▸ hs.call, hserver ▸ hs.unanswered, by rw [hserver]⟩

theorem Stalled.turns {loop : AcceptLoop} (hs : Stalled start i rx h p)
    (horder : Orderly { p with loop := loop })
    (hnoticed : ∀ since, loop = .draining since → start ≤ since)
    (hlate : ∀ timedOut, loop = .ended timedOut →
      timedOut = true ∧ start + closeTimeout ≤ p.server.now) :
    Stalled start i rx h { p with loop := loop } :=
  ⟨horder, hs.call, hs.unanswered, hs.started, hnoticed, hlate⟩

theorem Stalled.not_closed (hs : Stalled start i rx h p) (hstage : h.stage = .waiting rx isGrpc)
    (hclosed : ∀ conn ∈ p.connections, conn.closed = true) : False := by
  have hended := hs.orderly.ended hclosed hs.call
  simp [finished, hstage] at hended

theorem Stalled.step {move : Move} (hs : Stalled start i rx h p)
    (hstage : h.stage = .waiting rx isGrpc) (hstop : p.stop = .joining) (hstays : move ≠ .leave i)
    (he : p.exec settings none move = some q) : Stalled start i rx h q := by
  have horder := hs.orderly.step he
  have hserver : ∀ {action : Action} {s : State}, action.withoutGvl = true →
      action ≠ .http (.handler i .drop) → p.server.exec settings action = some s →
      Waits i rx h p.server s :=
    fun hgvl hdrop => exec_waits hstage hs.call hs.unanswered hgvl hdrop
  cases exec_move he with
  | server action s admitted step =>
    have hgvl := Process.admits_withoutGvl admitted hstop
    exact hs.waits horder rfl (hserver hgvl (Process.admits_ne_drop admitted i) step)
  | accept | close | joinDropping => exact hs.rests horder rfl rfl
  | acceptFails => exact hs.turns horder (by simp) (by simp)
  | notice =>
    refine hs.turns horder (fun since hsince => ?_) (by simp)
    cases hsince
    exact hs.started
  | drained since draining closed =>
    -- the connection of the call is watched, and it is open
    refine (hs.not_closed hstage fun conn hconn => ?_).elim
    exact closed conn hconn (hs.orderly.watched conn hconn)
  | expire since draining past =>
    refine hs.turns horder (by simp) fun timedOut hended => ?_
    cases hended
    have hsince := hs.noticed since draining
    exact ⟨rfl, by omega⟩
  | request c conn parts declaredLen s hget opened step =>
    exact hs.waits horder rfl (hserver rfl (by simp) step)
  | leave j s step =>
    have hother : j ≠ i := by
      rintro rfl
      exact hstays rfl
    exact hs.waits horder rfl (hserver rfl (by simp [hother]) step)
  | joinDraining timedOut s ended joining step =>
    exact hs.waits horder rfl (hserver rfl (by simp) step)
  | stop s running => simp [hstop] at running
  | drain move s draining => simp [hstop] at draining
  | finish past => simp [hstop] at past
  | cutOff j s returned => simp [hstop] at returned

/-- A call that waits for its answer when `stop` is called goes on waiting while `stop` waits for
the server task: unless its client leaves, `stop` gets on only after all of the ten seconds, and
the call is still there. -/
theorem stop_outwaits (settings : Settings) (p : Process) (hp : p.Reachable settings none)
    (hstop : p.stop = .joining) (hloop : p.loop = .accepting ∨ p.loop = .deaf)
    (hget : p.server.handlers[i]? = some h) (hstage : h.stage = .waiting rx isGrpc)
    (hrx : Unanswered p.server.oneshots rx) (q : Process)
    (hq : Reached (Process.exec settings none)
      (fun s move => s.stop = .joining ∧ move ≠ .leave i) p q) :
    q.server.handlers[i]? = some h ∧ q.loop ≠ .ended false ∧
      (q.stop ≠ .joining → p.server.now + closeTimeout ≤ q.server.now) := by
  have hstart : Stalled p.server.now i rx h p := by
    refine ⟨run_orderly hp, hget, hrx, le_rfl, fun since hsince => ?_, fun timedOut hended => ?_⟩
    · rcases hloop with hloop | hloop <;> simp [hloop] at hsince
    · rcases hloop with hloop | hloop <;> simp [hloop] at hended
  have hrun : Stalled p.server.now i rx h q ∧ q.stop ≠ .running := by
    refine hq.invariant (fun q => Stalled p.server.now i rx h q ∧ q.stop ≠ .running)
      ⟨hstart, by simp [hstop]⟩ fun s move t _ hallowed hs he => ?_
    exact ⟨hs.1.step hstage hallowed.1 hallowed.2 he, exec_stopping he hs.2⟩
  obtain ⟨hstalled, hrunning⟩ := hrun
  refine ⟨hstalled.call, fun hended => ?_, fun hjoining => ?_⟩
  · cases (hstalled.late false hended).1
  · obtain ⟨timedOut, hended⟩ := hstalled.orderly.joined hrunning hjoining
    exact (hstalled.late timedOut hended).2

/-- A request is in the channel when `stop` is called. -/
theorem stop_outwaits_queued :
    ∃ p : Process, p.Reachable .shared none ∧ p.stop = .joining ∧
      ∀ q, Reached (Process.exec .shared none)
          (fun s move => s.stop = .joining ∧ move ≠ .leave 0) p q →
        q.loop ≠ .ended false ∧
          (q.stop ≠ .joining → p.server.now + closeTimeout ≤ q.server.now) := by
  let parts : Http.Parts := ⟨.get, Http.ascii "/", []⟩
  obtain ⟨p, hp, hstop, hloop, hget, honeshots⟩ : ∃ p : Process, p.Reachable .shared none ∧
      p.stop = .joining ∧ p.loop = .accepting ∧
      p.server.handlers[0]? = some ⟨parts, .waiting 0 false⟩ ∧
      p.server.oneshots = [⟨0, .empty⟩] :=
    exists_reached
      [.accept, .request 0 parts none, .server (.http (.handler 0 (.body (some [])))),
        .server (.http (.handler 0 (.proceed none))), .stop] (by decide)
  refine ⟨p, hp, hstop, fun q hq => ?_⟩
  have hrx : Unanswered p.server.oneshots 0 := by simp [honeshots, Unanswered]
  exact (stop_outwaits .shared p hp hstop (.inl hloop) hget rfl hrx q hq).2

end Stalled
end HyperRuby.Server
