import HyperRuby.Http.Attended

/-! # What a call that waits finds

The receiver of a oneshot goes only with the call that waits on it. So a call
that waits finds a response made for it, a sender that is gone, or its request
in the channel or with a thread.
-/
namespace HyperRuby.Http
open Library

variable {config : HandoffConfig} {s t : Exchange}

section Heard

/-- The oneshot that a call waits on has not lost its receiver. -/
def Stage.Heard (oneshots : List Oneshot) : Stage → Prop
  | .waiting responseRx _ =>
    ∃ o, oneshots[responseRx]? = some o ∧ o.content ≠ .receiverDropped
  | _ => True

def Exchange.Heard (s : Exchange) : Prop :=
  ∀ (i : ℕ) (h : Handler), s.handlers[i]? = some h → h.stage.Heard s.oneshots

theorem Stage.Heard.mono {oneshots oneshots' : List Oneshot} {stage : Stage}
    (h : stage.Heard oneshots)
    (hkeep : ∀ rx isGrpc, stage = .waiting rx isGrpc → ∀ o, oneshots[rx]? = some o →
      o.content ≠ .receiverDropped → ∃ o', oneshots'[rx]? = some o' ∧
        o'.content ≠ .receiverDropped) : stage.Heard oneshots' := by
  cases stage with
  | waiting rx isGrpc =>
    rcases h with ⟨o, ho, hkept⟩
    exact hkeep rx isGrpc rfl o ho hkept
  | _ => trivial

theorem Turn.heard {oneshots : List Oneshot} {stage stage' : Stage}
    (h : Turn oneshots stage stage') : stage'.Heard oneshots := by
  cases h <;> trivial

theorem Exchange.Heard.enter (hs : s.Heard) (i : ℕ) (h : Handler) {stage : Stage}
    (hstage : stage.Heard s.oneshots) : (s.enter i h stage).Heard :=
  forall_get_set hs hstage

theorem Exchange.Heard.put (hs : s.Heard) (tx : ℕ) {content : Content}
    (hcontent : content ≠ .receiverDropped) : (s.put tx content).Heard := by
  intro i h hget
  refine (hs i h hget).mono ?_
  intro rx _ _ o ho hkept
  by_cases htx : tx = rx
  · subst htx
    refine ⟨o.put content, by simp [Exchange.put, ho], ?_⟩
    unfold Oneshot.put
    split_ifs
    · exact hcontent
    · exact hkept
  · exact ⟨o, by simp [Exchange.put, htx, ho], hkept⟩

theorem open_iff (slots : List Oneshot) (k : ℕ) :
    Open Oneshot.vacant slots k ↔ ∃ o, slots[k]? = some o ∧ o.content = .empty := by
  unfold Open
  cases slots[k]? <;> simp [Oneshot.vacant]

theorem stakes_handler {i : ℕ} {h : Handler} (hget : s.handlers[i]? = some h) :
    ∃ rest, s.stakes = h.stage.stakes + rest := by
  rcases tally_set (fun h : Handler => h.stage.stakes) hget h with ⟨rest, hold, -⟩
  exact ⟨rest + (0, 0, s.dues), by rw [Exchange.stakes, hold, add_assoc]⟩

theorem drafted_heard (h : Run config s) {i : ℕ} {hd : Handler}
    {completion : RequestWithCompletion} {start : Option ℕ} (hget : s.handlers[i]? = some hd)
    (hstage : hd.stage = .sending completion start) (isGrpc : Bool) :
    (Stage.waiting completion.responseTx isGrpc).Heard s.oneshots := by
  rcases stakes_handler hget with ⟨rest, hrest⟩
  have hmem : completion.responseTx ∈ s.stakes.1 := by
    rw [hrest, hstage]
    exact Multiset.mem_add.mpr (.inl (Multiset.mem_singleton_self _))
  rcases (open_iff _ _).mp ((run_attended h).unsent _ hmem) with ⟨o, ho, hempty⟩
  exact ⟨o, ho, by simp [hempty]⟩

theorem Exchange.Heard.drop_senders (queue : List RequestWithCompletion) (hs : s.Heard) :
    (queue.foldl (fun s work => s.put work.responseTx .senderDropped) s).Heard := by
  induction queue generalizing s with
  | nil => exact hs
  | cons work queue ih => exact ih (hs.put work.responseTx (by simp))

/-- A call that leaves takes the receiver of its own oneshot, and of no other. -/
theorem Exchange.Heard.leave (hsound : Sound config s) (hs : s.Heard) {i rx : ℕ} {h : Handler}
    {isGrpc : Bool} (hget : s.handlers[i]? = some h) (hstage : h.stage = .waiting rx isGrpc) :
    (Exchange.enter { s with oneshots := s.oneshots.modify rx Oneshot.dropReceiver } i h
      .dropped).Heard := by
  intro j g hj
  rw [Exchange.enter, List.getElem?_set] at hj
  split_ifs at hj with hij
  · cases hj
    trivial
  · refine (hs j g hj).mono ?_
    intro rx' _ hwaits o ho hkept
    have hown : s.owner rx = some i := by simpa [hstage, Stage.Sound] using hsound.handlers i h hget
    have hother : s.owner rx' = some j := by
      simpa [hwaits, Stage.Sound] using hsound.handlers j g hj
    have hne : rx ≠ rx' := by
      rintro rfl
      exact hij (Option.some.inj (hown.symm.trans hother))
    exact ⟨o, by simp [Exchange.enter, hne, ho], hkept⟩

theorem run_heard (h : Run config s) : s.Heard := by
  apply h.invariant Exchange.Heard
  · intro i h hget
    cases hget
  intro s a t hreached _ hs he
  cases exec_step he with
  | arrives parts declaredLen => exact forall_get_append hs trivial
  | turns i h stage hget turn =>
    exact hs.enter i h turn.heard
  | offers i h declaredLen since request hget hstage =>
    refine Exchange.Heard.enter (s := { s with oneshots := s.oneshots ++ [⟨i, .empty⟩] }) ?_ i h
      trivial
    intro j g hj
    refine (hs j g hj).mono fun rx _ _ o ho hkept => ⟨o, ?_, hkept⟩
    rw [List.getElem?_append_left (List.getElem?_eq_some_iff.mp ho).1]
    exact ho
  | queues i h completion start isGrpc hget hstage room =>
    exact Exchange.Heard.enter (s := { s with queue := s.queue ++ [completion] }) hs i h
      (drafted_heard hreached hget hstage isGrpc)
  | hands i h completion start isGrpc w hget hstage receiving =>
    exact Exchange.Heard.enter (s := { s with threads := s.threads.set w (.holding completion) }) hs
      i h (drafted_heard hreached hget hstage isGrpc)
  | leaves i h rx isGrpc hget hstage => exact hs.leave (run_sound hreached) hget hstage
  | responds w thread work response =>
    exact Exchange.Heard.put (s := { s with
      threads := s.threads.set w .idle, produced := s.produced ++ [(work.id, response)] }) hs
      work.responseTx (by simp)
  | abandons w thread work =>
    exact Exchange.Heard.put (s := { s with threads := s.threads.set w .ended }) hs
      work.responseTx (by simp)
  | disconnects =>
    exact Exchange.Heard.drop_senders (s := { s with queue := [], disconnected := true }) s.queue hs
  | hires | takes | moves | calls | ticks => exact hs

end Heard

theorem stakes_held (s : Exchange) : s.stakes.2.2 = s.dues := by
  have hzero : ((s.handlers.map (fun h : Handler => h.stage.stakes)).sum).2.2 = 0 := by
    rw [tally_measure (fun x : Stakes ℕ => x.2.2) rfl (fun _ _ => rfl)]
    exact List.sum_eq_zero (by simp [Stage.stakes])
  rw [Exchange.stakes, Prod.snd_add, Prod.snd_add, hzero, zero_add]

theorem mem_held {work : RequestWithCompletion} :
    work ∈ s.held ↔ work ∈ s.queue ∨ ∃ thread ∈ s.threads, thread.work = some work := by
  rw [Exchange.held, Multiset.mem_add, Multiset.mem_coe, mem_tally]
  simp [Thread.holds]

section Waits
variable {i rx : ℕ} {hd : Handler} {isGrpc : Bool}

theorem waiting_slot (h : Run config s) (hget : s.handlers[i]? = some hd)
    (hstage : hd.stage = .waiting rx isGrpc) :
    ∃ o, s.oneshots[rx]? = some o ∧ o.owner = i ∧ o.content ≠ .receiverDropped := by
  have hheard := run_heard h i hd hget
  have howner := (run_sound h).handlers i hd hget
  rw [hstage] at hheard howner
  rcases hheard with ⟨o, ho, hkept⟩
  exact ⟨o, ho, by simpa [Stage.Sound, Exchange.owner, ho] using howner, hkept⟩

theorem waiting_mem (hget : s.handlers[i]? = some hd) (hstage : hd.stage = .waiting rx isGrpc) :
    rx ∈ s.stakes.2.1 := by
  rcases stakes_handler hget with ⟨rest, hrest⟩
  rw [hrest, hstage]
  exact Multiset.mem_add.mpr (.inl (Multiset.mem_singleton_self rx))

theorem waiting_due (h : Run config s) (hget : s.handlers[i]? = some hd)
    (hstage : hd.stage = .waiting rx isGrpc) {o : Oneshot} (ho : s.oneshots[rx]? = some o)
    (hempty : o.content = .empty) :
    ∃ work ∈ s.held, work.responseTx = rx ∧ work.id = o.owner := by
  have hsound := run_sound h
  have hopen : Open Oneshot.vacant s.oneshots rx := (open_iff _ _).mpr ⟨o, ho, hempty⟩
  have hdue : rx ∈ s.dues := by
    have hmem := Multiset.mem_filter.mpr ⟨waiting_mem hget hstage, hopen⟩
    rw [← (run_attended h).matched, stakes_held] at hmem
    exact Multiset.mem_of_mem_filter hmem
  rcases Multiset.mem_map.mp hdue with ⟨work, hwork, rfl⟩
  have howns : s.Owns work := by
    rcases mem_held.mp hwork with hqueue | ⟨thread, hthread, htaken⟩
    · exact hsound.queue work hqueue
    · exact hsound.threads thread hthread work htaken
  refine ⟨work, hwork, rfl, ?_⟩
  simpa [Exchange.Owns, Exchange.owner, ho] using howns.symm

end Waits

/-- In every run, a call that waits finds on its oneshot a response that a thread made for it, or
that the sender is gone, and then its request is nowhere any more; or nothing yet, and then its
request is in the channel or with a thread. No two requests there share a oneshot. -/
theorem waiters_attended (config : HandoffConfig) (s : Exchange) (h : Run config s) (i rx : ℕ)
    (hd : Handler) (isGrpc : Bool) (hget : s.handlers[i]? = some hd)
    (hstage : hd.stage = .waiting rx isGrpc) :
    s.dues.Nodup ∧ ∃ o, s.oneshots[rx]? = some o ∧ o.owner = i ∧
      ((o.content = .empty ∧ ∃ work ∈ s.held, work.responseTx = rx ∧ work.id = i) ∨
        (∃ response, o.content = .value response ∧ (i, response) ∈ s.produced ∧ rx ∉ s.dues) ∨
        (o.content = .senderDropped ∧ rx ∉ s.dues)) := by
  have hbooks := run_attended h
  rw [stakes_held] at hbooks
  rcases waiting_slot h hget hstage with ⟨o, ho, hself, hkept⟩
  -- a request that is still somewhere has an untouched oneshot
  have hnowhere : o.content ≠ .empty → rx ∉ s.dues := by
    intro hused hdue
    rcases (open_iff _ _).mp (hbooks.shared rx (waiting_mem hget hstage) hdue)
      with ⟨o', ho', hempty⟩
    rw [ho] at ho'
    cases ho'
    exact hused hempty
  refine ⟨by simpa using hbooks.held_nodup, o, ho, hself, ?_⟩
  cases hcontent : o.content with
  | empty =>
    rw [← hself]
    exact .inl ⟨rfl, waiting_due h hget hstage ho hcontent⟩
  | value response =>
    refine .inr (.inl ⟨response, rfl, ?_, hnowhere (by simp [hcontent])⟩)
    rw [← hself]
    exact (run_sound h).oneshots rx o ho response hcontent
  | senderDropped => exact .inr (.inr ⟨rfl, hnowhere (by simp [hcontent])⟩)
  | receiverDropped => exact absurd hcontent hkept

/-- Of two calls that wait, the first one leaves. -/
theorem waiters_attended_left :
    ∃ s, Run ⟨30000, 2, 5⟩ s ∧
      s.handlers.map Handler.stage = [.dropped, .waiting 1 false] ∧
      ∃ work ∈ s.held, work.responseTx = 1 ∧ work.id = 1 := by
  have hrun : ∃ s, Run ⟨30000, 2, 5⟩ s ∧
      s.handlers.map Handler.stage = [.dropped, .waiting 1 false] ∧
      s.oneshots[1]? = some ⟨1, .empty⟩ :=
    exists_reached
      [.arrive ⟨.get, ascii "/", []⟩ none, .arrive ⟨.get, ascii "/", []⟩ none,
        .handler 0 (.body (some [])), .handler 1 (.body (some [])), .handler 0 (.proceed none),
        .handler 1 (.proceed none), .handler 0 .drop]
      (by decide +kernel)
  rcases hrun with ⟨s, hs, hstages, hempty⟩
  have hsecond : (s.handlers.map Handler.stage)[1]? = some (.waiting 1 false) := by
    rw [hstages]
    rfl
  rw [List.getElem?_map] at hsecond
  rcases Option.map_eq_some_iff.mp hsecond with ⟨hd, hget, hstage⟩
  rcases waiters_attended _ s hs 1 1 hd false hget hstage with ⟨-, o, ho, -, hcases⟩
  rw [hempty] at ho
  cases ho
  rcases hcases with ⟨-, hattended⟩ | ⟨_, hvalue, -⟩ | ⟨hdropped, -⟩
  · exact ⟨s, hs, hstages, hattended⟩
  · cases hvalue
  · cases hdropped

end HyperRuby.Http
