import HyperRuby.Worker.Calls

/-! # One call for the next piece of work

`next_work_item` and `next_http_work_item` on channels that nobody else touches, and when they
give nothing. The operations of the worker machine, left alone, make the same call.
-/
namespace HyperRuby.Worker
open Library

section Call
variable {Q D : Type*}

abbrev Returned (Q D : Type*) := (Option (WorkItem Q D) × UInt32) × Channel Q × Channel D

/-- Look at the syslog channel and return what it gives; go on if it is empty. -/
def syslogTurn (streak : UInt32) (work : Channel Q) (syslog : Channel D)
    (next : Option (Returned Q D)) : Option (Returned Q D) :=
  match trySyslogWorkItem syslog with
  | (.empty, _) => next
  | (outcome, syslog) => some (countWorkItem outcome streak, work, syslog)

def httpTurn (streak : UInt32) (work : Channel Q) (syslog : Channel D)
    (next : Option (Returned Q D)) : Option (Returned Q D) :=
  match tryHttpWorkItem work with
  | (.empty, _) => next
  | (outcome, work) => some (countWorkItem outcome streak, work, syslog)

/-- The `select!`, with the channel it takes if that is ready. -/
def selectTurn (select : Kind) (streak : UInt32) (work : Channel Q) (syslog : Channel D) :
    Option (Returned Q D) :=
  match select with
  | .http => httpTurn streak work syslog none
  | .syslog => syslogTurn streak work syslog none

/-- A call on channels that nobody else touches. It has no value while the `select!` waits. -/
def nextWorkItem (ratio : UInt32) (select : Kind) (streak : UInt32) (work : Channel Q)
    (syslog : Channel D) : Option (Returned Q D) :=
  if streak < ratio then
    syslogTurn streak work syslog
      (httpTurn streak work syslog (selectTurn select streak work syslog))
  else
    httpTurn streak work syslog
      (syslogTurn streak work syslog (selectTurn select streak work syslog))

/-- A call that looks at the requests only. It has no value while `recv` waits. -/
def nextHttpWorkItem (work : Channel Q) : Option (Option (WorkItem Q D) × Channel Q) :=
  match tryHttpWorkItem work with
  | (.found item, work) => some (some item, work)
  | (.empty, _) => none
  | (.closed, work) => some (none, work)

/-- The call gives nothing, which ends the worker. -/
def Stops (result : Option (Returned Q D)) : Prop :=
  ∃ streak channels, result = some ((none, streak), channels)

theorem not_stops_none : ¬ Stops (none : Option (Returned Q D)) := by
  rintro ⟨_, _, h⟩
  cases h

variable {streak : UInt32} {work : Channel Q} {syslog : Channel D} {next : Option (Returned Q D)}

theorem syslogTurn_stops :
    Stops (syslogTurn streak work syslog next) ↔
      syslog.queue = [] ∧ (syslog.disconnected = true ∨ Stops next) := by
  cases hq : syslog.queue with
  | cons d rest => simp [syslogTurn, trySyslogWorkItem, Channel.tryRecv, hq, Stops, countWorkItem]
  | nil =>
    cases hd : syslog.disconnected <;>
      simp [syslogTurn, trySyslogWorkItem, Channel.tryRecv, hq, hd, Stops, countWorkItem]

theorem httpTurn_stops :
    Stops (httpTurn streak work syslog next) ↔
      work.queue = [] ∧ (work.disconnected = true ∨ Stops next) := by
  cases hq : work.queue with
  | cons q rest => simp [httpTurn, tryHttpWorkItem, Channel.tryRecv, hq, Stops, countWorkItem]
  | nil =>
    cases hd : work.disconnected <;>
      simp [httpTurn, tryHttpWorkItem, Channel.tryRecv, hq, hd, Stops, countWorkItem]

theorem nextWorkItem_stops {ratio : UInt32} {select : Kind} :
    Stops (nextWorkItem ratio select streak work syslog) ↔
      if streak < ratio then
        syslog.queue = [] ∧
          (syslog.disconnected = true ∨ (work.queue = [] ∧ work.disconnected = true))
      else
        work.queue = [] ∧
          (work.disconnected = true ∨ (syslog.queue = [] ∧ syslog.disconnected = true)) := by
  unfold nextWorkItem selectTurn
  split_ifs with hfirst
  · cases select <;> simp only [syslogTurn_stops, httpTurn_stops, not_stops_none] <;> tauto
  · cases select <;> simp only [syslogTurn_stops, httpTurn_stops, not_stops_none] <;> tauto

/-- The first channel looked at is closed and empty, and the other one holds work. -/
def LeavesWork (ratio streak : UInt32) (work : Channel Q) (syslog : Channel D) : Prop :=
  (streak < ratio ∧ syslog.queue = [] ∧ syslog.disconnected = true ∧ work.queue ≠ []) ∨
    (¬ streak < ratio ∧ work.queue = [] ∧ work.disconnected = true ∧ syslog.queue ≠ [])

theorem stops_drained {ratio : UInt32} {select : Kind} :
    (Stops (nextWorkItem ratio select streak work syslog) →
        work.queue = [] ∧ syslog.queue = []) ↔
      ¬ LeavesWork ratio streak work syslog := by
  rw [nextWorkItem_stops, LeavesWork]
  split_ifs with hfirst <;> tauto

end Call

section Refinement
variable {Q D : Type*} {ratio streak : UInt32} {select : Kind} {work : Channel Q}
  {syslog : Channel D}

def settled (ratio : UInt32) (result : Returned Q D) : State Q D :=
  ⟨result.2.1, result.2.2, result.1.2,
    if result.1.1.isSome then .enter ratio result.1.2 else .ended, result.1.1.toList⟩

/-- Operations of this worker alone lead to the end of the call. -/
def Leads (ratio : UInt32) (select : Kind) (s : State Q D) (result : Returned Q D) : Prop :=
  Reached (State.exec ratio) (fun _ a => a = .operate select) s (settled ratio result)

theorem finish_settled (stage : Stage) (outcome : TryWork Q D) :
    State.finish ratio ⟨work, syslog, streak, stage, []⟩ outcome =
      settled ratio (countWorkItem outcome streak, work, syslog) := by
  rcases outcome with (q | d) | _ | _ <;> rfl

theorem leads_of_operate {s t : State Q D} {result : Returned Q D}
    (h : s.operate ratio select = some t) (hleads : Leads ratio select t result) :
    Leads ratio select s result := by
  have hstep : Reached (State.exec ratio) (fun _ a => a = .operate select) s t :=
    .step (a := .operate select) .start rfl h
  exact hstep.trans hleads

theorem leads_syslog {stage : Stage} {onward : Option (State Q D)}
    {next : Option (Returned Q D)} {result : Returned Q D}
    (hoperate : State.operate ratio ⟨work, syslog, streak, stage, []⟩ select =
      match trySyslogWorkItem syslog with
      | (.empty, _) => onward
      | (outcome, syslog) =>
        some (State.finish ratio ⟨work, syslog, streak, stage, []⟩ outcome))
    (hnext : next = some result → ∃ t, onward = some t ∧ Leads ratio select t result)
    (h : syslogTurn streak work syslog next = some result) :
    Leads ratio select ⟨work, syslog, streak, stage, []⟩ result := by
  unfold syslogTurn at h
  split at h
  · rename_i htry
    obtain ⟨t, ht, hleads⟩ := hnext h
    rw [htry] at hoperate
    exact leads_of_operate (hoperate.trans ht) hleads
  · rename_i outcome left hempty htry
    rw [htry] at hoperate
    cases h
    refine leads_of_operate
      (t := settled ratio (countWorkItem outcome streak, work, left)) ?_ .start
    rw [hoperate, ← finish_settled]
    rcases outcome with _ | _ | _
    · rfl
    · exact absurd rfl hempty
    · rfl

theorem leads_http {stage : Stage} {onward : Option (State Q D)}
    {next : Option (Returned Q D)} {result : Returned Q D}
    (hoperate : State.operate ratio ⟨work, syslog, streak, stage, []⟩ select =
      match tryHttpWorkItem work with
      | (.empty, _) => onward
      | (outcome, work) =>
        some (State.finish ratio ⟨work, syslog, streak, stage, []⟩ outcome))
    (hnext : next = some result → ∃ t, onward = some t ∧ Leads ratio select t result)
    (h : httpTurn streak work syslog next = some result) :
    Leads ratio select ⟨work, syslog, streak, stage, []⟩ result := by
  unfold httpTurn at h
  split at h
  · rename_i htry
    obtain ⟨t, ht, hleads⟩ := hnext h
    rw [htry] at hoperate
    exact leads_of_operate (hoperate.trans ht) hleads
  · rename_i outcome left hempty htry
    rw [htry] at hoperate
    cases h
    refine leads_of_operate (t := settled ratio (countWorkItem outcome streak, left, syslog)) ?_
      .start
    rw [hoperate, ← finish_settled]
    rcases outcome with _ | _ | _
    · rfl
    · exact absurd rfl hempty
    · rfl

/-- The worker's operations, with nobody else at the channels, make the call. -/
theorem nextWorkItem_leads {result : Returned Q D}
    (h : nextWorkItem ratio select streak work syslog = some result) :
    Leads ratio select (State.start ratio streak work syslog) result := by
  have hselected : selectTurn select streak work syslog = some result →
      ∃ t, some (⟨work, syslog, streak, .selecting, []⟩ : State Q D) = some t ∧
        Leads ratio select t result := by
    intro hresult
    refine ⟨_, rfl, ?_⟩
    cases select with
    | http => exact leads_http rfl (fun hnone => by cases hnone) hresult
    | syslog => exact leads_syslog rfl (fun hnone => by cases hnone) hresult
  unfold nextWorkItem at h
  unfold State.start Stage.enter
  split_ifs at h ⊢ with hfirst
  · refine leads_syslog rfl (fun hnext => ⟨_, rfl, ?_⟩) h
    exact leads_http rfl hselected hnext
  · refine leads_http rfl (fun hnext => ⟨_, rfl, ?_⟩) h
    exact leads_syslog rfl hselected hnext

end Refinement

end HyperRuby.Worker
