import HyperRuby.Server.Process
import HyperRuby.Server.Steps

/-! # What `stop` waits for

Without a `max_connection_age` the server task waits for every connection, and a connection is
closed when its calls have ended: a server task that ends in time leaves no call to the drop of
the runtime. With one, a call on a connection that nobody watches is cut off.
-/
namespace HyperRuby.Server
open Library

section Calls
variable {settings : Settings} {s t : State} {action : Action}

/-- Calls that have ended stay so, and none comes in. -/
structure CallsKept (s t : State) : Prop where
  length : t.handlers.length = s.handlers.length
  ended : ∀ i : ℕ, (s.handlers[i]?).all finished = true → (t.handlers[i]?).all finished = true

theorem CallsKept.of_eq (h : t.handlers = s.handlers) : CallsKept s t :=
  ⟨by rw [h], fun i hi => by rwa [h]⟩

theorem exec_going {i : ℕ} {event : Http.HandlerEvent}
    (he : s.exec settings (.http (.handler i event)) = some t) :
    ∃ h stage, s.handlers[i]? = some h ∧ finished h = false ∧
      t.handlers = s.handlers.set i { h with stage := stage } := by
  cases exec_step he with
  | http _ e admits step =>
    rcases Option.bind_eq_some_iff.mp step with ⟨h, hget, hrest⟩
    have hhandled := handle_handled settings.capacityPos hrest
    obtain ⟨stage, hstage⟩ := hhandled.stage
    exact ⟨h, stage, hget, hhandled.going, hstage⟩

theorem exec_kept (ha : ∀ parts declaredLen, action ≠ .http (.arrive parts declaredLen))
    (he : s.exec settings action = some t) : CallsKept s t := by
  cases exec_step he with
  | http action e admits step =>
    cases action with
    | arrive parts declaredLen => exact absurd rfl (ha parts declaredLen)
    | handler i event =>
      obtain ⟨h, stage, hget, hgoing, hhandlers⟩ := exec_going he
      refine ⟨by rw [hhandlers, List.length_set], fun j hj => ?_⟩
      rw [hhandlers, List.getElem?_set_ne]
      · exact hj
      · rintro rfl
        rw [hget, Option.all_some, hgoing] at hj
        cases hj
    | tick =>
      cases step
      exact .of_eq rfl
    | hire | thread | disconnect => cases admits
  | works w event th _ hget worked => cases worked <;> exact .of_eq rfl
  | syslog | hires | closesWork | closesSyslog | dropsWork | dropsSyslog => exact .of_eq rfl

end Calls

section Watched
variable {settings : Settings} {p q : Process} {s : State}

/-- Where every connection is watched: a closed one has no calls left, the server task has ended
in time only when all are closed, and `stop` is past its wait only when the server task has
ended. -/
structure Orderly (p : Process) : Prop where
  watched : ∀ conn ∈ p.connections, conn.watched = true
  owned : p.owners.length = p.server.handlers.length
  known : ∀ c ∈ p.owners, c < p.connections.length
  served : ∀ (c : ℕ) (conn : Connection), p.connections[c]? = some conn → conn.closed = true →
    p.Served c
  closed : p.loop = .ended false → ∀ conn ∈ p.connections, conn.closed = true
  joined : p.stop ≠ .running → p.stop ≠ .joining → ∃ timedOut, p.loop = .ended timedOut
  uncut : p.cut = [] ∨ (p.stop = .returned ∧ p.loop = .ended true)

theorem Orderly.start (settings : Settings) : Orderly (.start settings) where
  watched := by simp [Process.start]
  owned := rfl
  known := by simp [Process.start]
  served := by simp [Process.start]
  closed := by simp [Process.start]
  joined := by simp [Process.start]
  uncut := .inl rfl

theorem Orderly.calls (h : Orderly p) (hkept : CallsKept p.server s) :
    Orderly { p with server := s } where
  watched := h.watched
  owned := h.owned.trans hkept.length.symm
  known := h.known
  served c conn hget hclosed i hi howner := hkept.ended i (h.served c conn hget hclosed i hi howner)
  closed := h.closed
  joined := h.joined
  uncut := h.uncut

theorem Orderly.ended (h : Orderly p) (hclosed : ∀ conn ∈ p.connections, conn.closed = true)
    {i : ℕ} {hd : Http.Handler} (hget : p.server.handlers[i]? = some hd) : finished hd = true := by
  have hi : i < p.owners.length := by
    rw [h.owned]
    exact (List.getElem?_eq_some_iff.mp hget).1
  have hc := h.known _ (List.getElem_mem hi)
  have hserved := h.served p.owners[i] _ (List.getElem?_eq_getElem hc)
    (hclosed _ (List.getElem_mem hc)) i hi (List.getElem?_eq_getElem hi)
  simpa [hget] using hserved

/-- With every connection closed in time, the runtime is dropped without any call. -/
theorem Orderly.cutOff {i : ℕ} {t : State} (h : Orderly p) (hreturned : p.stop = .returned)
    (he : p.server.exec settings (.http (.handler i .drop)) = some t) :
    p.loop = .ended true := by
  obtain ⟨timedOut, hloop⟩ := h.joined (by simp [hreturned]) (by simp [hreturned])
  cases timedOut with
  | true => exact hloop
  | false =>
    obtain ⟨hd, stage, hget, hgoing, -⟩ := exec_going he
    rw [h.ended (h.closed hloop) hget] at hgoing
    cases hgoing

theorem Orderly.accept (h : Orderly p) (hloop : p.loop = .accepting) :
    Orderly { p with connections := p.connections ++ [⟨true, false⟩] } where
  watched := by
    intro conn hconn
    rcases List.mem_append.mp hconn with hold | hnew
    · exact h.watched conn hold
    · rw [List.mem_singleton.mp hnew]
  owned := h.owned
  known c hc := by
    have hlt := h.known c hc
    simp
    omega
  served c conn hget hclosed := by
    rw [List.getElem?_append] at hget
    split_ifs at hget with hlt
    · exact h.served c conn hget hclosed
    · simp only [List.getElem?_singleton, Option.ite_none_right_eq_some] at hget
      obtain ⟨-, hnew⟩ := hget
      cases hnew
      cases hclosed
  closed hended := by
    rw [hloop] at hended
    cases hended
  joined := h.joined
  uncut := h.uncut

theorem Orderly.request {c : ℕ} {conn : Connection} {hd : Http.Handler} (h : Orderly p)
    (hget : p.connections[c]? = some conn) (hopen : conn.closed = false)
    (hhandlers : s.handlers = p.server.handlers ++ [hd]) :
    Orderly { p with server := s, owners := p.owners ++ [c] } where
  watched := h.watched
  owned := by simp [hhandlers, h.owned]
  known c' hc' := by
    rcases List.mem_append.mp hc' with hold | hnew
    · exact h.known c' hold
    · rw [List.mem_singleton.mp hnew]
      exact (List.getElem?_eq_some_iff.mp hget).1
  served c' conn' hget' hclosed i hi howner := by
    by_cases hlt : i < p.owners.length
    · rw [List.getElem?_append_left hlt] at howner
      have hserved := h.served c' conn' hget' hclosed i hlt howner
      rw [hhandlers, List.getElem?_append_left (h.owned ▸ hlt)]
      exact hserved
    · -- the new call is on a connection that is open
      rw [List.getElem?_append_right (by omega)] at howner
      obtain rfl : c' = c := by simpa using List.mem_of_getElem? howner
      rw [hget] at hget'
      cases hget'
      rw [hopen] at hclosed
      cases hclosed
  closed := h.closed
  joined := h.joined
  uncut := h.uncut

theorem Orderly.close {c : ℕ} (h : Orderly p) (hserved : p.Served c) :
    Orderly { p with
      connections := p.connections.modify c (fun conn => { conn with closed := true }) } where
  watched := by
    intro conn hconn
    rcases List.getElem?_of_mem hconn with ⟨j, hj⟩
    rw [List.getElem?_modify] at hj
    rcases Option.map_eq_some_iff.mp hj with ⟨conn', hget, rfl⟩
    have hold := h.watched conn' (List.mem_of_getElem? hget)
    split_ifs <;> exact hold
  owned := h.owned
  known := by simpa using h.known
  served c' conn hget hclosed := by
    by_cases hc : c = c'
    · exact hc ▸ hserved
    · have hold : p.connections[c']? = some conn := by simpa [List.getElem?_modify, hc] using hget
      exact h.served c' conn hold hclosed
  closed := by
    intro hended conn hconn
    rcases List.getElem?_of_mem hconn with ⟨j, hj⟩
    rw [List.getElem?_modify] at hj
    rcases Option.map_eq_some_iff.mp hj with ⟨conn', hget, rfl⟩
    have hold := h.closed hended conn' (List.mem_of_getElem? hget)
    split_ifs
    · rfl
    · exact hold
  joined := h.joined
  uncut := h.uncut

theorem Orderly.moves (h : Orderly p) (loop : AcceptLoop) (signalled : Bool) (stop : Stop)
    (cut : List ℕ)
    (hclosed : loop = .ended false → ∀ conn ∈ p.connections, conn.closed = true)
    (hjoined : stop ≠ .running → stop ≠ .joining → ∃ timedOut, loop = .ended timedOut)
    (huncut : cut = [] ∨ (stop = .returned ∧ loop = .ended true)) :
    Orderly { p with loop := loop, signalled := signalled, stop := stop, cut := cut } where
  watched := h.watched
  owned := h.owned
  known := h.known
  served := h.served
  closed := hclosed
  joined := hjoined
  uncut := huncut

theorem Orderly.going (h : Orderly p) (hloop : ∀ timedOut, p.loop ≠ .ended timedOut) :
    (p.stop = .running ∨ p.stop = .joining) ∧ p.cut = [] := by
  constructor
  · by_contra hstop
    push Not at hstop
    obtain ⟨timedOut, hended⟩ := h.joined hstop.1 hstop.2
    exact hloop timedOut hended
  · rcases h.uncut with hcut | ⟨-, hended⟩
    · exact hcut
    · exact absurd hended (hloop true)

theorem Orderly.uncut_of_ne (h : Orderly p) (hstop : p.stop ≠ .returned) : p.cut = [] := by
  rcases h.uncut with hcut | ⟨hreturned, -⟩
  · exact hcut
  · exact absurd hreturned hstop

theorem Orderly.turns (h : Orderly p) (hloop : ∀ timedOut, p.loop ≠ .ended timedOut)
    (loop : AcceptLoop)
    (hclosed : loop = .ended false → ∀ conn ∈ p.connections, conn.closed = true) :
    Orderly { p with loop := loop } := by
  obtain ⟨hstop, hcut⟩ := h.going hloop
  refine h.moves loop p.signalled p.stop p.cut hclosed (fun hrunning hjoining => ?_) (.inl hcut)
  rcases hstop with hstop | hstop
  · exact absurd hstop hrunning
  · exact absurd hstop hjoining

theorem Orderly.step {move : Move} (h : Orderly p) (he : p.exec settings none move = some q) :
    Orderly q := by
  cases exec_move he with
  | server action s admitted step =>
    exact h.calls (exec_kept (Process.admits_ne_arrive admitted) step)
  | accept accepting => exact h.accept accepting
  | acceptFails accepting => exact h.turns (by simp [accepting]) .deaf (by simp)
  | notice _ going =>
    refine h.turns (fun timedOut => ?_) (.draining p.server.now) (by simp)
    rcases going with hloop | hloop <;> simp [hloop]
  | drained since draining closed =>
    refine h.turns (by simp [draining]) (.ended false) fun _ conn hconn => ?_
    exact closed conn hconn (h.watched conn hconn)
  | expire since draining => exact h.turns (by simp [draining]) (.ended true) (by simp)
  | request c conn parts declaredLen s hget opened step =>
    cases exec_step step with
    | http _ e admits arrives =>
      cases arrives
      exact h.request hget opened rfl
  | leave i s step | drain move s draining step => exact h.calls (exec_kept (by simp) step)
  | close c served => exact h.close served
  | stop s running step =>
    have hkept := h.calls (exec_kept (by simp) step)
    have hcut := h.uncut_of_ne (by simp [running])
    exact hkept.moves p.loop true .joining p.cut hkept.closed (by simp) (.inl hcut)
  | joinDraining timedOut s ended joining step =>
    have hkept := h.calls (exec_kept (by simp) step)
    have hcut := h.uncut_of_ne (by simp [joining])
    exact hkept.moves p.loop p.signalled .draining p.cut hkept.closed
      (fun _ _ => ⟨timedOut, ended⟩) (.inl hcut)
  | joinDropping timedOut ended joining =>
    have hcut := h.uncut_of_ne (by simp [joining])
    exact h.moves p.loop p.signalled .dropping p.cut h.closed
      (fun _ _ => ⟨timedOut, ended⟩) (.inl hcut)
  | finish past =>
    have hpast : p.stop ≠ .running ∧ p.stop ≠ .joining ∧ p.stop ≠ .returned := by
      rcases past with hstop | hstop <;> simp [hstop]
    exact h.moves p.loop p.signalled .returned p.cut h.closed
      (fun _ _ => h.joined hpast.1 hpast.2.1) (.inl (h.uncut_of_ne hpast.2.2))
  | cutOff i s returned step =>
    have hlate := h.cutOff returned step
    have hkept := h.calls (exec_kept (by simp) step)
    exact hkept.moves p.loop p.signalled p.stop (p.cut ++ [i]) hkept.closed hkept.joined
      (.inr ⟨returned, hlate⟩)

theorem run_orderly (h : p.Reachable settings none) : Orderly p :=
  h.invariant Orderly (.start settings) fun _ _ _ _ _ ih he => ih.step he

end Watched

section Unwatched
variable {settings : Settings} {maxAge : Option ℕ} {p : Process}

theorem exec_drain {move : Dispatch.DrainMove} {s : State} {t : Dispatch.System}
    (he : s.syslog.drainStep move = some t) :
    s.exec settings (.syslog (.drain move)) = some (s.withSyslog t) := by
  have hdrain : s.syslog.exec settings.syslog (.drain move) = some t := he
  simp [State.exec, State.admitsSyslog, hdrain]

/-- `SyslogRuntime::drain` may come to an end, with nothing else changed. -/
def Drains (settings : Settings) (maxAge : Option ℕ) (p : Process) : Prop :=
  ∃ t : Dispatch.System, (t.drain = .completed ∨ t.drain = .timedOut) ∧
    Reached (Process.exec settings maxAge) (fun _ _ => True) p
      { p with server := p.server.withSyslog t }

theorem Drains.move (move : Dispatch.DrainMove) {t : Dispatch.System} (hstop : p.stop = .draining)
    (haccepting : move ≠ .stopAccepting) (hwait : move ≠ .wait)
    (he : p.server.syslog.drainStep move = some t)
    (h : Drains settings maxAge { p with server := p.server.withSyslog t }) :
    Drains settings maxAge p := by
  have hstep : p.exec settings maxAge (.drain move) =
      some { p with server := p.server.withSyslog t } := by
    rw [Process.exec, if_pos ⟨hstop, haccepting, hwait⟩, Process.serverStep, exec_drain he]
    rfl
  obtain ⟨u, hdone, hrest⟩ := h
  exact ⟨u, hdone, Reached.trans (.step .start trivial hstep) hrest⟩

theorem exists_drained (hstop : p.stop = .draining) (hwaiting : p.server.drain = .waiting) :
    Drains settings maxAge p := by
  by_cases htracked : p.server.syslog.Tracked
  · refine .move .complete hstop (by simp) (by simp) (if_pos ⟨hwaiting, htracked⟩) ?_
    exact ⟨_, .inl rfl, .start⟩
  · refine .move .timeout hstop (by simp) (by simp) (if_pos ⟨hwaiting, htracked⟩) ?_
    refine .move .swap hstop (by simp) (by simp) rfl ?_
    refine .move .abandon hstop (by simp) (by simp) rfl ?_
    exact ⟨_, .inr rfl, .start⟩

theorem exists_returned (settings : Settings) (maxAge : Option ℕ) {timedOut : Bool}
    (hloop : p.loop = .ended timedOut) (hstop : p.stop = .joining)
    (hidle : p.server.drain = .idle) :
    ∃ t : Dispatch.System, Reached (Process.exec settings maxAge) (fun _ _ => True) p
      { p with server := p.server.withSyslog t, stop := .returned } := by
  by_cases henabled : settings.enabled = true
  · obtain ⟨t, hwait, hwaiting⟩ :
        ∃ t, p.server.syslog.drainStep .wait = some t ∧ t.drain = .waiting :=
      ⟨_, if_pos hidle, rfl⟩
    have hjoin : p.exec settings maxAge .join =
        some { p with server := p.server.withSyslog t, stop := .draining } := by
      simp [Process.exec, hloop, hstop, henabled, Process.serverStep, exec_drain hwait]
    obtain ⟨u, hdone, hdrained⟩ : Drains settings maxAge
        { p with server := p.server.withSyslog t, stop := .draining } :=
      exists_drained rfl hwaiting
    have hfinish : Process.exec settings maxAge
        { p with server := p.server.withSyslog u, stop := .draining } .finish =
        some { p with server := p.server.withSyslog u, stop := .returned } :=
      if_pos (.inr ⟨rfl, hdone⟩)
    exact ⟨u, .step (Reached.trans (.step .start trivial hjoin) hdrained) trivial hfinish⟩
  · have hjoin : p.exec settings maxAge .join = some { p with stop := .dropping } := by
      simp [Process.exec, hloop, hstop, henabled]
    have hfinish : Process.exec settings maxAge { p with stop := .dropping } .finish =
        some { p with stop := .returned } := rfl
    exact ⟨p.server.syslog, .step (.step .start trivial hjoin) trivial hfinish⟩

theorem exec_drop (settings : Settings) {i : ℕ} {s : State} {h : Http.Handler}
    (hget : s.handlers[i]? = some h) (hgoing : finished h = false)
    (hopen : s.workClosed = false) :
    ∃ t, s.exec settings (.http (.handler i .drop)) = some t := by
  have hdrop : ∃ e, s.http.drop i h = some e := by
    cases hstage : h.stage <;> simp_all [finished, Http.Exchange.drop]
  obtain ⟨e, he⟩ := hdrop
  have hexec : s.http.exec settings.http (.handler i .drop) = some e :=
    Option.bind_eq_some_iff.mpr ⟨h, hget, he⟩
  exact ⟨s.withHttp e, by simp [State.exec, State.admitsHttp, hopen, hexec]⟩

/-- A call on a connection that nobody watches does not keep the server task from ending. -/
theorem exists_ended (settings : Settings) (age : ℕ) :
    ∃ p : Process, p.Reachable settings (some age) ∧ p.loop = .ended false ∧ p.stop = .joining ∧
      p.cut = [] ∧ p.server.drain = .idle ∧ p.server.workClosed = false ∧
      ∃ h, p.server.handlers = [h] ∧ finished h = false := by
  let parts : Http.Parts := ⟨.get, Http.ascii "/", []⟩
  have hrun : run (Process.exec settings (some age)) (fun _ _ => True) (.start settings)
      [.accept, .request 0 parts none, .stop, .notice, .drained] = some _ := rfl
  exact ⟨_, .of_run .start hrun, rfl, rfl, rfl, rfl, rfl, _, rfl, rfl⟩

/-- With a `max_connection_age` a call is cut off, although the server task has ended in time. -/
theorem exists_cut (settings : Settings) (age : ℕ) :
    ∃ p : Process, p.Reachable settings (some age) ∧ p.loop = .ended false ∧ p.cut = [0] := by
  obtain ⟨p, hp, hloop, hstop, hcut, hidle, hopen, h, hhandlers, hgoing⟩ :=
    exists_ended settings age
  obtain ⟨t, hreturned⟩ := exists_returned settings (some age) hloop hstop hidle
  have hget : (p.server.withSyslog t).handlers[0]? = some h := congrArg (·[0]?) hhandlers
  obtain ⟨s, hdrop⟩ := exec_drop settings hget hgoing hopen
  have hcutOff : Process.exec settings (some age)
      { p with server := p.server.withSyslog t, stop := .returned } (.cutOff 0) =
      some { p with server := s, stop := .returned, cut := p.cut ++ [0] } := by
    simp [Process.exec, Process.serverStep, hdrop]
  refine ⟨_, .step (hp.trans hreturned) trivial hcutOff, hloop, ?_⟩
  simp [hcut]

/-- Where the server task ends in time, no call in flight is cut off by `stop`, unless there is a
`max_connection_age`: the tasks of such connections are told of the shutdown, but not waited
for. -/
theorem stop_waits_iff (settings : Settings) (maxAge : Option ℕ) :
    (∀ p : Process, p.Reachable settings maxAge → p.loop = .ended false → p.cut = []) ↔
      maxAge = none := by
  constructor
  · intro hwaits
    cases maxAge with
    | none => rfl
    | some age =>
      obtain ⟨p, hp, hloop, hcut⟩ := exists_cut settings age
      rw [hwaits p hp hloop] at hcut
      cases hcut
  · rintro rfl p hp hloop
    rcases (run_orderly hp).uncut with hcut | ⟨-, hlate⟩
    · exact hcut
    · rw [hloop] at hlate
      cases hlate

end Unwatched
end HyperRuby.Server
