import HyperRuby.Worker.Calls

/-! # The work ratio

Bounds on the runs of syslog messages and of requests that one worker takes, whatever the
other tasks do to the channels between its operations. The invariants speak of the worker
alone: its streak, where its call stands and what it has returned.
-/
namespace HyperRuby.Worker
open Library

section Ratio
variable {Q D : Type*} {ratio streak : UInt32} {s t : State Q D}

theorem toNat_succ_of_lt (h : streak < ratio) : (streak + 1).toNat = streak.toNat + 1 := by
  have hlt := UInt32.lt_iff_toNat_lt.mp h
  have hratio := ratio.toNat_lt
  rw [UInt32.toNat_add, UInt32.toNat_one, Nat.mod_eq_of_lt (by omega)]

/-- While requests wait, a call never gets past its look at them. -/
def Stage.Brisk (ratio streak : UInt32) (stage : Stage) : Prop :=
  (stage = .syslogFirst ∧ streak < ratio) ∨ (∃ first, stage = .http first) ∨ stage = .ended

theorem brisk_enter (ratio streak : UInt32) : (Stage.enter ratio streak).Brisk ratio streak := by
  unfold Stage.enter
  split_ifs with h
  · exact .inl ⟨rfl, h⟩
  · exact .inr (.inl ⟨false, rfl⟩)

theorem Operated.brisk (h : Operated ratio s t) (hwork : s.work.queue ≠ [])
    (hb : s.stage.Brisk ratio s.streak) :
    t.stage.Brisk ratio t.streak ∧
      ((t.returned = s.returned ∧ t.streak = s.streak) ∨
        (∃ q, t.returned = s.returned ++ [.http q] ∧ t.streak = 0) ∨
        ∃ d, t.returned = s.returned ++ [.syslog d] ∧ s.streak < ratio ∧
          t.streak = s.streak + 1) := by
  cases h with
  | delivery d rest front pc =>
    refine ⟨brisk_enter _ _, .inr (.inr ⟨d, rfl, ?_, rfl⟩)⟩
    rcases hb with ⟨-, hlt⟩ | ⟨first, hpc⟩ | hpc
    · exact hlt
    · simp [hpc] at pc
    · simp [hpc] at pc
  | request q rest front pc => exact ⟨brisk_enter _ _, .inr (.inl ⟨q, rfl, rfl⟩)⟩
  | noDelivery empty pc => exact ⟨.inr (.inl ⟨true, rfl⟩), .inl ⟨rfl, rfl⟩⟩
  | noRequest first empty pc => exact absurd empty hwork
  | nothing empty pc =>
    rcases hb with ⟨hpc, -⟩ | ⟨first, hpc⟩ | hpc <;> simp [hpc] at pc
  | syslogClosed empty pc => exact ⟨.inr (.inr rfl), .inl ⟨rfl, rfl⟩⟩
  | workClosed empty pc => exact absurd empty hwork

/-- A run of syslog messages alone has counted up the streak, and stops at the ratio. -/
def SyslogRun (ratio start streak : UInt32) (returned : List (WorkItem Q D)) : Prop :=
  (∃ q, .http q ∈ returned) ∨
    (streak.toNat = start.toNat + returned.length ∧
      returned.length ≤ ratio.toNat - start.toNat)

theorem Operated.syslogRun {start : UInt32} (h : Operated ratio s t) (hwork : s.work.queue ≠ [])
    (hinv : s.stage.Brisk ratio s.streak ∧ SyslogRun ratio start s.streak s.returned) :
    t.stage.Brisk ratio t.streak ∧ SyslogRun ratio start t.streak t.returned := by
  obtain ⟨hbrisk, hrun⟩ := hinv
  obtain ⟨hbrisk', hstep⟩ := h.brisk hwork hbrisk
  refine ⟨hbrisk', ?_⟩
  rcases hstep with ⟨hreturned, hstreak⟩ | ⟨q, hreturned, -⟩ | ⟨d, hreturned, hlt, hstreak⟩
  · rwa [hreturned, hstreak]
  · exact .inl ⟨q, by simp [hreturned]⟩
  · rcases hrun with ⟨q, hq⟩ | ⟨hcount, hbound⟩
    · exact .inl ⟨q, by simp [hreturned, hq]⟩
    · right
      have hlt' := UInt32.lt_iff_toNat_lt.mp hlt
      rw [hreturned, hstreak, toNat_succ_of_lt hlt, List.length_append, List.length_singleton]
      omega

/-- With syslog messages waiting, a request is followed by a look at them. -/
def RequestRun (stage : Stage) (returned : List (WorkItem Q D)) : Prop :=
  (∃ d, .syslog d ∈ returned) ∨ returned = [] ∨
    (∃ q, returned = [.http q]) ∧ stage = .syslogFirst

theorem enter_zero (h : 1 ≤ ratio) : Stage.enter ratio 0 = .syslogFirst := by
  unfold Stage.enter
  rw [if_pos]
  rw [UInt32.le_iff_toNat_le] at h
  rw [UInt32.lt_iff_toNat_lt]
  exact Nat.lt_of_lt_of_le (by decide) h

theorem Operated.requestRun (hratio : 1 ≤ ratio) (h : Operated ratio s t)
    (hsyslog : s.syslog.queue ≠ []) (hinv : RequestRun s.stage s.returned) :
    RequestRun t.stage t.returned := by
  rcases hinv with ⟨d, hd⟩ | hnil | ⟨⟨q, hq⟩, hstage⟩
  · left
    refine ⟨d, ?_⟩
    cases h <;> simp [hd]
  · cases h with
    | delivery d rest front pc => exact .inl ⟨d, by simp⟩
    | request q rest front pc => exact .inr (.inr ⟨⟨q, by simp [hnil]⟩, enter_zero hratio⟩)
    | noDelivery | noRequest | nothing | syslogClosed | workClosed => exact .inr (.inl hnil)
  · cases h with
    | delivery d rest front pc => exact .inl ⟨d, by simp⟩
    | request q rest front pc => simp [hstage] at pc
    | noDelivery empty pc => exact absurd empty hsyslog
    | noRequest first empty pc => simp [hstage] at pc
    | nothing empty pc => exact absurd empty hsyslog
    | syslogClosed empty pc => exact absurd empty hsyslog
    | workClosed empty pc => simp [hstage] at pc

/-- `R` syslog messages and a request. -/
def cycle (R : ℕ) : List Kind := List.replicate R .syslog ++ [.http]

/-- What is left of the first cycle, and `j` whole ones. -/
def rounds (R start j : ℕ) : List Kind :=
  List.replicate (R - start) .syslog ++ .http :: (List.replicate j (cycle R)).flatten

theorem rounds_succ (R start j : ℕ) : rounds R start (j + 1) = rounds R start j ++ cycle R := by
  rw [rounds, rounds, List.replicate_succ', List.flatten_append]
  simp

/-- How far a worker has got in its cycles. -/
inductive Phase (R start streak : ℕ) (kinds : List Kind) : Prop where
  | first (k : ℕ) (so : kinds = List.replicate k .syslog) (count : streak = start + k)
      (bound : k ≤ R - start)
  | later (j k : ℕ) (so : kinds = rounds R start j ++ List.replicate k .syslog)
      (count : streak = k) (bound : k ≤ R)

section Phases
variable {R start n : ℕ} {kinds : List Kind}

theorem Phase.syslog (h : Phase R start n kinds) (hlt : n < R) :
    Phase R start (n + 1) (kinds ++ [.syslog]) := by
  cases h with
  | first k so count bound =>
    exact .first (k + 1) (by rw [so, List.replicate_succ']) (by omega) (by omega)
  | later j k so count bound =>
    exact .later j (k + 1) (by rw [so, List.replicate_succ', List.append_assoc]) (by omega)
      (by omega)

theorem Phase.http (h : Phase R start n kinds) (hge : R ≤ n) :
    Phase R start 0 (kinds ++ [.http]) := by
  cases h with
  | first k so count bound =>
    refine .later 0 0 ?_ rfl (Nat.zero_le _)
    obtain rfl : k = R - start := by omega
    simp [so, rounds]
  | later j k so count bound =>
    refine .later (j + 1) 0 ?_ rfl (Nat.zero_le _)
    obtain rfl : k = R := by omega
    rw [so, rounds_succ, cycle]
    simp

theorem Phase.isPrefix (h : Phase R start n kinds) : ∃ j, kinds <+: rounds R start j := by
  cases h with
  | first k so count bound =>
    refine ⟨0, ?_⟩
    obtain ⟨m, hm⟩ : ∃ m, R - start = k + m := ⟨R - start - k, by omega⟩
    rw [so, rounds, hm, List.replicate_add, List.append_assoc]
    exact List.prefix_append _ _
  | later j k so count bound =>
    refine ⟨j + 1, ?_⟩
    obtain ⟨m, hm⟩ : ∃ m, R = k + m := ⟨R - k, by omega⟩
    rw [so, rounds_succ]
    apply (List.prefix_append_right_inj _).mpr
    rw [cycle, hm, List.replicate_add, List.append_assoc]
    exact List.prefix_append _ _

end Phases

theorem Operated.phase {start : UInt32} (h : Operated ratio s t) (hwork : s.work.queue ≠ [])
    (hsyslog : s.syslog.queue ≠ [])
    (hinv : s.stage = .enter ratio s.streak ∧
      Phase ratio.toNat start.toNat s.streak.toNat (s.returned.map WorkItem.kind)) :
    (t.stage = .enter ratio t.streak ∧
      Phase ratio.toNat start.toNat t.streak.toNat (t.returned.map WorkItem.kind)) ∧
    t.returned.length = s.returned.length + 1 := by
  obtain ⟨hstage, hphase⟩ := hinv
  unfold Stage.enter at hstage
  cases h with
  | delivery d rest front pc =>
    refine ⟨⟨rfl, ?_⟩, List.length_append⟩
    split_ifs at hstage with hlt
    · simp only [List.map_append, toNat_succ_of_lt hlt]
      exact hphase.syslog (UInt32.lt_iff_toNat_lt.mp hlt)
    · simp [hstage] at pc
  | request q rest front pc =>
    refine ⟨⟨rfl, ?_⟩, List.length_append⟩
    split_ifs at hstage with hlt
    · simp [hstage] at pc
    · simp only [List.map_append]
      rw [UInt32.lt_iff_toNat_lt] at hlt
      exact hphase.http (by omega)
  | noDelivery empty pc => exact absurd empty hsyslog
  | noRequest first empty pc => exact absurd empty hwork
  | nothing empty pc => exact absurd empty hsyslog
  | syslogClosed empty pc => exact absurd empty hsyslog
  | workClosed empty pc => exact absurd empty hwork

theorem operate_isSome (hstage : s.stage = .enter ratio s.streak) (hwork : s.work.queue ≠ [])
    (hsyslog : s.syslog.queue ≠ []) (select : Kind) : ∃ t, s.operate ratio select = some t := by
  obtain ⟨q, requests, hq⟩ := List.exists_cons_of_ne_nil hwork
  obtain ⟨d, deliveries, hd⟩ := List.exists_cons_of_ne_nil hsyslog
  unfold Stage.enter at hstage
  split_ifs at hstage
  · simp [State.operate, hstage, trySyslogWorkItem, Channel.tryRecv, hd]
  · simp [State.operate, hstage, tryHttpWorkItem, Channel.tryRecv, hq]

/-- Where a worker stands whose operations have all found both channels filled. -/
theorem run_phase {start : UInt32} {work : Channel Q} {syslog : Channel D}
    {actions : List (Action Q D)}
    (h : run (State.exec ratio) (fun s a => a.operates → s.work.queue ≠ [] ∧ s.syslog.queue ≠ [])
      (.start ratio start work syslog) actions = some s) :
    (s.stage = .enter ratio s.streak ∧
      Phase ratio.toNat start.toNat s.streak.toNat (s.returned.map WorkItem.kind)) ∧
    s.returned.length = actions.countP Action.operates := by
  refine run_history (fun actions (s : State Q D) => (s.stage = .enter ratio s.streak ∧
    Phase ratio.toNat start.toNat s.streak.toNat (s.returned.map WorkItem.kind)) ∧
    s.returned.length = actions.countP Action.operates)
    ⟨⟨rfl, .first 0 rfl rfl (Nat.zero_le _)⟩, rfl⟩ ?_ h
  rintro actions s a t - ok ⟨hinv, hlength⟩ he
  rcases exec_cases he with ⟨select, rfl, hoperated⟩ | ⟨hquiet, work, syslog, rfl⟩
  · obtain ⟨hwork, hsyslog⟩ := ok rfl
    obtain ⟨hinv', hlength'⟩ := hoperated.phase hwork hsyslog hinv
    exact ⟨hinv', by simp [hlength', hlength, Action.operates]⟩
  · exact ⟨hinv, by simp [hlength, hquiet]⟩

/-- For every ratio and every streak at the start. While requests wait at each operation, at most
`ratio` calls in a row take a syslog message. While syslog messages wait, at most one call in a
row takes a request, unless the ratio is zero. While both wait, every call returns an item by
its first operation, and the calls go round in cycles. -/
theorem work_ratio (ratio streak : UInt32) (work : Channel Q) (syslog : Channel D) :
    (∀ s : State Q D, Reached (State.exec ratio)
        (fun s a => ∀ k, a = .operate k → s.work.queue ≠ []) (.start ratio streak work syslog) s →
      (∀ item ∈ s.returned, item.kind = .syslog) → s.returned.length ≤ ratio.toNat) ∧
    (1 ≤ ratio → ∀ s : State Q D, Reached (State.exec ratio)
        (fun s a => ∀ k, a = .operate k → s.syslog.queue ≠ [])
        (.start ratio streak work syslog) s →
      (∀ item ∈ s.returned, item.kind = .http) → s.returned.length ≤ 1) ∧
    ∀ (actions : List (Action Q D)) (s : State Q D),
      run (State.exec ratio)
        (fun s a => a.operates → s.work.queue ≠ [] ∧ s.syslog.queue ≠ [])
        (.start ratio streak work syslog) actions = some s →
      s.returned.length = actions.countP Action.operates ∧
      s.stage ≠ .ended ∧
      (s.work.queue ≠ [] → s.syslog.queue ≠ [] →
        ∀ select, ∃ t, s.operate ratio select = some t ∧
          t.returned.length = s.returned.length + 1) ∧
      ∃ j, s.returned.map WorkItem.kind <+:
        List.replicate (ratio.toNat - streak.toNat) .syslog ++
          .http :: (List.replicate j (List.replicate ratio.toNat .syslog ++ [.http])).flatten := by
  refine ⟨?_, ?_, ?_⟩
  · intro s h hall
    have hinv := worker_invariant
      (fun n stage returned => stage.Brisk ratio n ∧ SyslogRun ratio streak n returned)
      ⟨brisk_enter ratio streak, .inr ⟨rfl, Nat.zero_le _⟩⟩
      (fun _ _ hwork hop => hop.syslogRun hwork) h
    rcases hinv.2 with ⟨q, hq⟩ | ⟨-, hbound⟩
    · cases hall _ hq
    · omega
  · intro hratio s h hall
    have hinv := worker_invariant (fun _ stage returned => RequestRun stage returned)
      (.inr (.inl rfl)) (fun _ _ hsyslog hop => hop.requestRun hratio hsyslog) h
    rcases hinv with ⟨d, hd⟩ | hnil | ⟨⟨q, hq⟩, -⟩
    · cases hall _ hd
    · simp [hnil]
    · simp [hq]
  · intro actions s h
    obtain ⟨hinv, hlength⟩ := run_phase h
    refine ⟨hlength, ?_, ?_, hinv.2.isPrefix⟩
    · rw [hinv.1]
      exact enter_ne_ended _ _
    · intro hwork hsyslog select
      obtain ⟨t, ht⟩ := operate_isSome hinv.1 hwork hsyslog select
      exact ⟨t, ht, ((operate_operated ht).phase hwork hsyslog hinv).2⟩

/-- Ratio 2 from streak 1, with a request and a message that arrive on the way: five operations,
five items. -/
theorem work_ratio_filled :
    let start : State ℕ ℕ := .start 2 1 ⟨[10, 11], false⟩ ⟨[20, 21, 22], false⟩
    let actions : List (Action ℕ ℕ) :=
      [.operate .http, .operate .http, .request 12, .operate .http, .delivery 23, .operate .http,
        .operate .http]
    let s : State ℕ ℕ := ⟨⟨[12], false⟩, ⟨[23], false⟩, 0, .syslogFirst,
      [.syslog 20, .http 10, .syslog 21, .syslog 22, .http 11]⟩
    run (State.exec 2) (fun s a => a.operates → s.work.queue ≠ [] ∧ s.syslog.queue ≠ []) start
        actions = some s ∧
      s.returned.length = actions.countP Action.operates ∧ s.stage ≠ .ended ∧
      ∃ t, s.operate 2 .http = some t ∧ t.returned.length = 6 := by
  intro start actions s
  have hrun : run (State.exec 2)
      (fun s a => a.operates → s.work.queue ≠ [] ∧ s.syslog.queue ≠ []) start actions = some s := by
    decide
  obtain ⟨hlength, hstage, hnext, -⟩ := (work_ratio 2 1 _ _).2.2 actions s hrun
  exact ⟨hrun, hlength, hstage, hnext (by decide) (by decide) .http⟩

end Ratio
end HyperRuby.Worker
