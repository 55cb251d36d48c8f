import HyperRuby.Http.Exchange
import HyperRuby.Http.Shape

/-! # What the server refuses, it has reason to refuse

A call of `handle_request` answers by itself when the body takes too long, when the channel
stays full, and when the receivers are gone. Each of these answers has its cause in the run that
led to it: the clock had moved on since the call came in or since its first attempt, and every
attempt of a call that was turned away as one too many had found the channel full.
-/
namespace HyperRuby.Http
open Framing Library

/-- `try_send` finds no room. -/
def Exchange.Full (config : HandoffConfig) (s : Exchange) : Prop :=
  s.disconnected = false ∧
    if config.channelCapacity = 0 then .receiving ∉ s.threads
    else config.channelCapacity ≤ s.queue.length

abbrev Takes (config : HandoffConfig) (actions : List Action) (s : Exchange) (a : Action) : Prop :=
  Stepped (Exchange.exec config) (fun _ _ => True) .init actions s a

/-- A call came in at this time. -/
def Arrived (config : HandoffConfig) (actions : List Action) (i since : ℕ) : Prop :=
  ∃ s parts declaredLen, Takes config actions s (.arrive parts declaredLen) ∧
    s.handlers.length = i ∧ s.now = since

def Stage.tries : Stage → Bool
  | .sending _ _ => true
  | _ => false

/-- A call makes an attempt to send its request, in this state. -/
def Tries (config : HandoffConfig) (actions : List Action) (i : ℕ) (s : Exchange) : Prop :=
  ∃ receiver h, Takes config actions s (.handler i (.proceed receiver)) ∧
    s.handlers[i]? = some h ∧ h.stage.tries = true

/-- The first attempt of a call was at this time, and none of its attempts found room. -/
structure TurnedAway (config : HandoffConfig) (actions : List Action) (i start : ℕ) : Prop where
  first : ∃ s, Tries config actions i s ∧ s.now = start
  full : ∀ s, Tries config actions i s → s.Full config ∧ start ≤ s.now

theorem TurnedAway.congr {config : HandoffConfig} {actions actions' : List Action} {i start : ℕ}
    (h : TurnedAway config actions i start)
    (htries : ∀ s, Tries config actions' i s ↔ Tries config actions i s) :
    TurnedAway config actions' i start where
  first := by
    rcases h.first with ⟨s, hs, hnow⟩
    exact ⟨s, (htries s).mpr hs, hnow⟩
  full s hs := h.full s ((htries s).mp hs)

def Stage.Explained (config : HandoffConfig) (actions : List Action) (now i : ℕ) : Stage → Prop
  | .collecting _ since => Arrived config actions i since ∧ ∀ s, ¬ Tries config actions i s
  | .sending _ none => ∀ s, ¬ Tries config actions i s
  | .sending _ (some start) | .polling _ start | .sleeping _ start _ =>
    TurnedAway config actions i start ∧ start ≤ now
  | .returned .bodyTimeout _ => ∃ since s h declaredLen, Arrived config actions i since ∧
    Takes config actions s (.handler i .expire) ∧ s.handlers[i]? = some h ∧
      h.stage = .collecting declaredLen since ∧ since + config.recvTimeout ≤ s.now
  | .returned .tooBusy _ => ∃ start s receiver h completion, TurnedAway config actions i start ∧
    Takes config actions s (.handler i (.proceed receiver)) ∧ s.handlers[i]? = some h ∧
      h.stage = .polling completion start ∧ start + config.sendTimeout ≤ s.now
  | .returned .shuttingDown _ => ∃ s, Tries config actions i s ∧ s.disconnected = true
  | .returned _ _ | .waiting _ _ | .failed | .dropped => True

section Steps
variable {config : HandoffConfig} {actions : List Action} {s t u : Exchange} {a b : Action}
  {i now now' : ℕ}
  (hrun : run (Exchange.exec config) (fun _ _ => True) .init actions = some t)
include hrun

theorem takes_last : Takes config (actions ++ [a]) t a :=
  (stepped_concat hrun).mpr (.inr ⟨rfl, rfl⟩)

theorem takes_later (h : Takes config actions u b) : Takes config (actions ++ [a]) u b :=
  (stepped_concat hrun).mpr (.inl h)

theorem arrived_later {since : ℕ} (h : Arrived config actions i since) :
    Arrived config (actions ++ [a]) i since := by
  rcases h with ⟨s, parts, declaredLen, htakes, hi, hnow⟩
  exact ⟨s, parts, declaredLen, takes_later hrun htakes, hi, hnow⟩

theorem tries_concat :
    Tries config (actions ++ [a]) i u ↔ Tries config actions i u ∨ u = t ∧
      ∃ receiver h, a = .handler i (.proceed receiver) ∧ t.handlers[i]? = some h ∧
        h.stage.tries = true := by
  constructor
  · rintro ⟨receiver, h, htakes, hget, htries⟩
    rcases (stepped_concat hrun).mp htakes with hbefore | ⟨rfl, hlast⟩
    · exact .inl ⟨receiver, h, hbefore, hget, htries⟩
    · exact .inr ⟨rfl, receiver, h, hlast.symm, hget, htries⟩
  · rintro (⟨receiver, h, htakes, hget, htries⟩ | ⟨rfl, receiver, h, rfl, hget, htries⟩)
    · exact ⟨receiver, h, takes_later hrun htakes, hget, htries⟩
    · exact ⟨receiver, h, takes_last hrun, hget, htries⟩

/-- No step of a call that is not about to send is an attempt. -/
theorem tries_resting {h : Handler} (hget : t.handlers[i]? = some h)
    (hrests : h.stage.tries = false) (u : Exchange) :
    Tries config (actions ++ [a]) i u ↔ Tries config actions i u := by
  rw [tries_concat hrun]
  refine or_iff_left ?_
  rintro ⟨-, receiver, h', -, hget', htries⟩
  rw [hget] at hget'
  cases hget'
  rw [hrests] at htries
  cases htries

theorem tries_other (hother : ∀ receiver, a ≠ .handler i (.proceed receiver)) (u : Exchange) :
    Tries config (actions ++ [a]) i u ↔ Tries config actions i u := by
  rw [tries_concat hrun]
  refine or_iff_left ?_
  rintro ⟨-, receiver, -, ha, -⟩
  exact hother receiver ha

theorem Stage.Explained.later {stage : Stage} (h : stage.Explained config actions now i)
    (htries : ∀ u, Tries config (actions ++ [a]) i u ↔ Tries config actions i u)
    (hnow : now ≤ now') : stage.Explained config (actions ++ [a]) now' i := by
  match stage, h with
  | .collecting _ _, ⟨harrived, hnever⟩ =>
    exact ⟨arrived_later hrun harrived, fun s hs => hnever s ((htries s).mp hs)⟩
  | .sending _ none, hnever => exact fun s hs => hnever s ((htries s).mp hs)
  | .sending _ (some _), ⟨haway, hstart⟩ => exact ⟨haway.congr htries, hstart.trans hnow⟩
  | .polling _ _, ⟨haway, hstart⟩ => exact ⟨haway.congr htries, hstart.trans hnow⟩
  | .sleeping _ _ _, ⟨haway, hstart⟩ => exact ⟨haway.congr htries, hstart.trans hnow⟩
  | .returned .bodyTimeout _, ⟨since, s, h, declaredLen, harrived, htakes, hlate⟩ =>
    exact ⟨since, s, h, declaredLen, arrived_later hrun harrived, takes_later hrun htakes, hlate⟩
  | .returned .tooBusy _, ⟨start, s, receiver, h, completion, haway, htakes, hlate⟩ =>
    exact ⟨start, s, receiver, h, completion, haway.congr htries, takes_later hrun htakes, hlate⟩
  | .returned .shuttingDown _, ⟨s, hs, hgone⟩ => exact ⟨s, (htries s).mpr hs, hgone⟩
  | .returned .badLength _, _ | .returned .noAnswer _, _ | .returned .worker _, _
  | .waiting _ _, _ | .failed, _ | .dropped, _ => trivial

def Exchange.Goes (config : HandoffConfig) (actions : List Action) (s t : Exchange) (i : ℕ)
    (h : Handler) : Prop :=
  ∃ stage, t.handlers = s.handlers.set i { h with stage := stage } ∧ t.now = s.now ∧
    stage.Explained config actions s.now i

omit hrun in
theorem goes_of_enter {h : Handler} {stage : Stage} (hhandlers : u.handlers = t.handlers)
    (hnow : u.now = t.now) (hstage : stage.Explained config actions t.now i) :
    t.Goes config actions (u.enter i h stage) i h :=
  ⟨stage, by rw [Exchange.enter, hhandlers], hnow, hstage⟩

omit hrun in
theorem trySend_found {completion : RequestWithCompletion} {receiver : Option ℕ}
    {outcome : TrySend} (he : s.trySend config completion receiver = some (outcome, t)) :
    t.handlers = s.handlers ∧ t.now = s.now ∧ (outcome = .full → s.Full config) ∧
      (outcome = .disconnected → s.disconnected = true) := by
  unfold Exchange.trySend at he
  split at he
  · cases he
    exact ⟨rfl, rfl, by simp, fun _ => ‹_›⟩
  have hopen : s.disconnected = false := by simpa using ‹¬ s.disconnected = true›
  split at he
  · rename_i hnone
    split at he
    · split_ifs at he
      cases he
      exact ⟨rfl, rfl, by simp, by simp⟩
    · split_ifs at he with hreceiving
      cases he
      exact ⟨rfl, rfl, fun _ => ⟨hopen, by rwa [if_pos hnone]⟩, by simp⟩
  · rename_i hsome
    split_ifs at he with hroom
    · cases he
      exact ⟨rfl, rfl, by simp, by simp⟩
    · cases he
      refine ⟨rfl, rfl, fun _ => ⟨hopen, ?_⟩, by simp⟩
      rw [if_neg hsome]
      omega

theorem offer_explained {h : Handler} {completion : RequestWithCompletion}
    {start receiver : Option ℕ} (hget : t.handlers[i]? = some h)
    (hstage : h.stage = .sending completion start)
    (hbefore : h.stage.Explained config actions t.now i)
    (he : t.offer config i h completion start receiver = some u) :
    t.Goes config (actions ++ [.handler i (.proceed receiver)]) u i h := by
  have htry : Tries config (actions ++ [.handler i (.proceed receiver)]) i t :=
    (tries_concat hrun).mpr (.inr ⟨rfl, receiver, h, rfl, hget, by rw [hstage]; rfl⟩)
  unfold Exchange.offer at he
  dsimp only at he
  split at he
  · cases he
  · rename_i hsent
    rcases trySend_found hsent with ⟨hhandlers, hnow, -⟩
    cases he
    exact goes_of_enter hhandlers hnow trivial
  · rename_i hsent
    rcases trySend_found hsent with ⟨hhandlers, hnow, hfull, -⟩
    cases he
    apply goes_of_enter hhandlers hnow
    rw [hnow]
    have hat : ∀ s, s = t → s.Full config ∧ s.now = t.now := by
      rintro s rfl
      exact ⟨hfull rfl, rfl⟩
    rw [hstage] at hbefore
    cases start with
    | none =>
      refine ⟨⟨⟨t, htry, rfl⟩, fun s hs => ?_⟩, le_rfl⟩
      rcases (tries_concat hrun).mp hs with hearlier | ⟨hst, -⟩
      · exact absurd hearlier (hbefore s)
      · exact ⟨(hat s hst).1, (hat s hst).2.ge⟩
    | some start =>
      rcases hbefore with ⟨haway, hstart⟩
      rcases haway.first with ⟨first, hfirst, hwhen⟩
      refine ⟨⟨⟨first, (tries_concat hrun).mpr (.inl hfirst), hwhen⟩, fun s hs => ?_⟩, hstart⟩
      rcases (tries_concat hrun).mp hs with hearlier | ⟨hst, -⟩
      · exact haway.full s hearlier
      · exact ⟨(hat s hst).1, hstart.trans (hat s hst).2.ge⟩
  · rename_i hsent
    rcases trySend_found hsent with ⟨hhandlers, hnow, -, hgone⟩
    cases he
    exact goes_of_enter hhandlers hnow ⟨t, htry, hgone rfl⟩

theorem proceed_explained {h : Handler} {receiver : Option ℕ} (hget : t.handlers[i]? = some h)
    (hbefore : h.stage.Explained config actions t.now i)
    (he : t.proceed config i h receiver = some u) :
    t.Goes config (actions ++ [.handler i (.proceed receiver)]) u i h := by
  unfold Exchange.proceed at he
  split at he
  case h_1 completion start hstage => exact offer_explained hrun hget hstage hbefore he
  case h_2 completion start hstage =>
    have htries := tries_resting (a := .handler i (.proceed receiver)) hrun hget
      (by rw [hstage]; rfl)
    rw [hstage] at hbefore
    rcases hbefore with ⟨haway, hstart⟩
    split_ifs at he with hlate
    · cases he
      exact ⟨_, rfl, rfl, start, t, receiver, h, completion, haway.congr htries,
        takes_last hrun, hget, hstage, by omega⟩
    · cases he
      exact ⟨_, rfl, rfl, haway.congr htries, hstart⟩
  case h_3 completion start wake hstage =>
    have htries := tries_resting (a := .handler i (.proceed receiver)) hrun hget
      (by rw [hstage]; rfl)
    rw [hstage] at hbefore
    rcases hbefore with ⟨haway, hstart⟩
    split_ifs at he
    cases he
    exact ⟨_, rfl, rfl, haway.congr htries, hstart⟩
  case h_4 rx isGrpc hstage =>
    split at he
    · cases he
      exact ⟨_, rfl, rfl, trivial⟩
    · cases he
      exact ⟨_, rfl, rfl, trivial⟩
    · cases he
  case h_5 => cases he

theorem handle_explained {h : Handler} {event : HandlerEvent} (hget : t.handlers[i]? = some h)
    (hbefore : h.stage.Explained config actions t.now i)
    (he : t.handle config i h event = some u) :
    t.Goes config (actions ++ [.handler i event]) u i h := by
  cases event with
  | body collected =>
    have htries := tries_other (a := .handler i (.body collected)) (i := i) hrun (by simp)
    simp only [Exchange.handle] at he
    split at he
    · rename_i declaredLen since body hstage
      cases he
      rw [hstage] at hbefore
      unfold Exchange.collected
      split_ifs
      · exact ⟨_, rfl, rfl, trivial⟩
      · exact ⟨_, rfl, rfl, fun s hs => hbefore.2 s ((htries s).mp hs)⟩
    · cases he
      exact ⟨_, rfl, rfl, trivial⟩
    · cases he
  | expire =>
    simp only [Exchange.handle] at he
    split at he
    · rename_i declaredLen since hstage
      split_ifs at he with hlate
      cases he
      rw [hstage] at hbefore
      exact ⟨_, rfl, rfl, since, t, h, declaredLen, arrived_later hrun hbefore.1,
        takes_last hrun, hget, hstage, hlate⟩
    · cases he
  | proceed receiver => exact proceed_explained hrun hget hbefore he
  | drop =>
    simp only [Exchange.handle, Exchange.drop] at he
    split at he
    all_goals
      cases he
    · exact ⟨_, rfl, rfl, trivial⟩
    · exact ⟨_, rfl, rfl, trivial⟩

end Steps

section Runs
variable {config : HandoffConfig} {actions : List Action} {s t : Exchange} {a : Action}

/-- The clock does not go back. -/
theorem step_now (h : Step config s t) : s.now ≤ t.now := by
  cases h with
  | ticks => exact Nat.le_succ _
  | disconnects =>
    rcases drop_senders_frame s.queue { s with queue := [], disconnected := true }
      with ⟨oneshots, hframe⟩
    rw [hframe]
  | _ => exact le_rfl

/-- The run explains every call, and calls that have not come in have done nothing. -/
structure Exchange.Explained (config : HandoffConfig) (actions : List Action) (s : Exchange) :
    Prop where
  calls : ∀ (i : ℕ) (h : Handler), s.handlers[i]? = some h →
    h.stage.Explained config actions s.now i
  unborn : ∀ i, s.handlers.length ≤ i → ∀ u, ¬ Tries config actions i u

variable (hrun : run (Exchange.exec config) (fun _ _ => True) .init actions = some s)
include hrun

/-- Steps of threads, of the channel and of the clock leave the calls alone. -/
theorem Exchange.Explained.quiet (h : s.Explained config actions)
    (ha : ∀ i event, a ≠ .handler i event) (hhandlers : t.handlers = s.handlers)
    (hnow : s.now ≤ t.now) : t.Explained config (actions ++ [a]) where
  calls i hd hget := by
    rw [hhandlers] at hget
    exact (h.calls i hd hget).later hrun (tries_other hrun (fun _ => ha _ _)) hnow
  unborn i hi u htry := by
    rw [hhandlers] at hi
    exact h.unborn i hi u ((tries_other hrun (fun _ => ha _ _) u).mp htry)

theorem Exchange.Explained.arrive (h : s.Explained config actions) (parts : Parts)
    (declaredLen : Option ℕ)
    (hhandlers : t.handlers = s.handlers ++ [⟨parts, .collecting declaredLen s.now⟩])
    (hnow : t.now = s.now) : t.Explained config (actions ++ [.arrive parts declaredLen]) where
  calls i hd hget := by
    have htries := tries_other (a := .arrive parts declaredLen) (i := i) hrun (by simp)
    rw [hhandlers] at hget
    rcases Nat.lt_or_ge i s.handlers.length with hlt | hge
    · rw [List.getElem?_append_left hlt] at hget
      exact (h.calls i hd hget).later hrun htries hnow.ge
    · obtain rfl : i = s.handlers.length := by
        have hlast := (List.getElem?_eq_some_iff.mp hget).1
        simp only [List.length_append, List.length_singleton] at hlast
        omega
      rw [List.getElem?_concat_length] at hget
      cases hget
      exact ⟨⟨s, parts, declaredLen, takes_last hrun, rfl, rfl⟩,
        fun u htry => h.unborn _ le_rfl u ((htries u).mp htry)⟩
  unborn i hi u htry := by
    rw [hhandlers, List.length_append] at hi
    exact h.unborn i (by omega) u ((tries_other hrun (by simp) u).mp htry)

theorem Exchange.Explained.handler (h : s.Explained config actions) {j : ℕ} {hd : Handler}
    {event : HandlerEvent} (hget : s.handlers[j]? = some hd)
    (he : s.handle config j hd event = some t) :
    t.Explained config (actions ++ [.handler j event]) := by
  rcases handle_explained hrun hget (h.calls j hd hget) he with ⟨stage, hhandlers, hnow, hstage⟩
  have hlt := (List.getElem?_eq_some_iff.mp hget).1
  have hother : ∀ i, i ≠ j → ∀ u,
      Tries config (actions ++ [.handler j event]) i u ↔ Tries config actions i u := by
    intro i hij
    apply tries_other hrun
    intro receiver heq
    cases heq
    exact hij rfl
  constructor
  · intro i hd' hget'
    rw [hhandlers, List.getElem?_set] at hget'
    rw [hnow]
    split_ifs at hget' with hij
    · cases hget'
      subst hij
      exact hstage
    · exact (h.calls i hd' hget').later hrun (hother i (Ne.symm hij)) le_rfl
  · intro i hi u htry
    rw [hhandlers, List.length_set] at hi
    exact h.unborn i hi u ((hother i (by omega) u).mp htry)

theorem Exchange.Explained.step (h : s.Explained config actions)
    (he : s.exec config a = some t) : t.Explained config (actions ++ [a]) := by
  cases a with
  | arrive parts declaredLen =>
    cases he
    exact h.arrive hrun parts declaredLen rfl rfl
  | handler j event =>
    rcases Option.bind_eq_some_iff.mp he with ⟨hd, hget, hrest⟩
    exact h.handler hrun hget hrest
  | hire =>
    cases he
    exact h.quiet hrun (by simp) rfl le_rfl
  | thread w event =>
    rcases Option.bind_eq_some_iff.mp he with ⟨thread, -, hrest⟩
    exact h.quiet hrun (by simp) (work_produced hrest).1 (step_now (exec_step he))
  | disconnect =>
    exact h.quiet hrun (by simp) (disconnect_handlers he) (step_now (exec_step he))
  | tick =>
    cases he
    exact h.quiet hrun (by simp) rfl (Nat.le_succ _)

omit hrun in
theorem run_explained (hrun : run (Exchange.exec config) (fun _ _ => True) .init actions = some s) :
    s.Explained config actions := by
  apply run_history (fun actions s => s.Explained config actions) _ _ hrun
  · refine ⟨fun i h hget => by simp [Exchange.init] at hget, fun i _ u htry => ?_⟩
    rcases htry with ⟨_, _, htakes, -⟩
    exact not_stepped_nil _ _ htakes
  · intro actions t a u ht _ ih he
    exact ih.step ht he

end Runs

/-- In every run, what a call answers by itself has its cause. It gives up on a body only when
the call is older than the receive timeout. It turns a request away as one too many only when
every attempt to send it found the channel full, the first of them by the send timeout earlier.
It speaks of a shutdown only when an attempt found the receivers gone. -/
theorem refusals_explained (config : HandoffConfig) (actions : List Action) (s : Exchange)
    (hrun : run (Exchange.exec config) (fun _ _ => True) .init actions = some s) (i : ℕ)
    (h : Handler) (hget : s.handlers[i]? = some h) (response : HyperResponse) :
    (h.stage = .returned .bodyTimeout response → ∃ since u hd declaredLen,
      Arrived config actions i since ∧ Takes config actions u (.handler i .expire) ∧
      u.handlers[i]? = some hd ∧ hd.stage = .collecting declaredLen since ∧
      since + config.recvTimeout ≤ u.now) ∧
    (h.stage = .returned .tooBusy response → ∃ start u receiver hd completion,
      TurnedAway config actions i start ∧
      Takes config actions u (.handler i (.proceed receiver)) ∧
      u.handlers[i]? = some hd ∧ hd.stage = .polling completion start ∧
      start + config.sendTimeout ≤ u.now) ∧
    (h.stage = .returned .shuttingDown response →
      ∃ u, Tries config actions i u ∧ u.disconnected = true) := by
  have hexplained := (run_explained hrun).calls i h hget
  refine ⟨fun hstage => ?_, fun hstage => ?_, fun hstage => ?_⟩
  · rw [hstage] at hexplained
    exact hexplained
  · rw [hstage] at hexplained
    exact hexplained
  · rw [hstage] at hexplained
    exact hexplained

/-- A second call finds the one place of the channel taken, once and again after its sleep. -/
theorem refusals_explained_crowded :
    ∃ actions s h response,
      run (Exchange.exec ⟨30, 1, 5⟩) (fun _ _ => True) .init actions = some s ∧
      s.handlers[1]? = some h ∧ h.stage = .returned .tooBusy response ∧
      ∃ start u receiver, TurnedAway ⟨30, 1, 5⟩ actions 1 start ∧
        Takes ⟨30, 1, 5⟩ actions u (.handler 1 (.proceed receiver)) ∧ start + 5 ≤ u.now := by
  have hrun : ∃ s, run (Exchange.exec ⟨30, 1, 5⟩) (fun _ _ => True) .init
      ([.arrive ⟨.get, ascii "/", []⟩ none, .arrive ⟨.get, ascii "/", []⟩ none,
        .handler 0 (.body (some [])), .handler 0 (.proceed none), .handler 1 (.body (some [])),
        .handler 1 (.proceed none), .handler 1 (.proceed none)] ++ List.replicate 10 .tick ++
        List.replicate 3 (.handler 1 (.proceed none))) = some s ∧
      (s.handlers[1]?).map Handler.stage = some (.returned .tooBusy (tooBusyResponse false)) :=
    exists_run _ (by decide +kernel)
  rcases hrun with ⟨s, hrun, hstage⟩
  rcases Option.map_eq_some_iff.mp hstage with ⟨h, hget, hstage⟩
  rcases (refusals_explained _ _ s hrun 1 h hget _).2.1 hstage with
    ⟨start, u, receiver, _, _, haway, htakes, -, -, hlate⟩
  exact ⟨_, s, h, _, hrun, hget, hstage, start, u, receiver, haway, htakes, hlate⟩

end HyperRuby.Http
