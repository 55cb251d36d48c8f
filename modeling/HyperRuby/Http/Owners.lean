import HyperRuby.Http.Steps
import Mathlib.Data.List.Infix

/-! # Who a response belongs to

A oneshot belongs to the call of `handle_request` that made it. Completions travel with the
oneshot of their own call, so what a thread sends for a request is read by the handler of that
request.
-/
namespace HyperRuby.Http
open Library

variable {config : HandoffConfig} {s t : Exchange}

def Exchange.owner (s : Exchange) (tx : ℕ) : Option ℕ := (s.oneshots[tx]?).map Oneshot.owner

/-- A completion carries the oneshot of its own call. -/
def Exchange.Owns (s : Exchange) (work : RequestWithCompletion) : Prop :=
  s.owner work.responseTx = some work.id

/-- What a handler holds, waits on and returns belongs to its call. -/
def Stage.Sound (s : Exchange) (i : ℕ) : Stage → Prop
  | .sending completion _ | .polling completion _ | .sleeping completion _ _ =>
    completion.id = i ∧ s.Owns completion
  | .waiting responseRx _ => s.owner responseRx = some i
  | .returned .worker response => (i, response) ∈ s.produced
  | _ => True

structure Sound (config : HandoffConfig) (s : Exchange) : Prop where
  handlers : ∀ (i : ℕ) (h : Handler), s.handlers[i]? = some h → h.stage.Sound s i
  queue : ∀ work ∈ s.queue, s.Owns work
  threads : ∀ thread ∈ s.threads, ∀ work, thread.work = some work → s.Owns work
  oneshots : ∀ (k : ℕ) (o : Oneshot), s.oneshots[k]? = some o → ∀ response,
    o.content = .value response → (o.owner, response) ∈ s.produced
  room : s.queue.length ≤ config.channelCapacity

/-- Oneshots keep their owners and responses stay produced. -/
structure Extends (s t : Exchange) : Prop where
  owner : ∀ tx i, s.owner tx = some i → t.owner tx = some i
  produced : ∀ x ∈ s.produced, x ∈ t.produced

theorem Extends.refl (h : t.oneshots = s.oneshots) (hp : t.produced = s.produced) :
    Extends s t where
  owner tx i ho := by rw [Exchange.owner, h]; exact ho
  produced x hx := hp ▸ hx

theorem Stage.Sound.mono (ext : Extends s t) {i : ℕ} {stage : Stage} (h : stage.Sound s i) :
    stage.Sound t i := by
  cases stage with
  | sending completion start => exact ⟨h.1, ext.owner _ _ h.2⟩
  | polling completion start => exact ⟨h.1, ext.owner _ _ h.2⟩
  | sleeping completion start wake => exact ⟨h.1, ext.owner _ _ h.2⟩
  | waiting rx isGrpc => exact ext.owner _ _ h
  | returned origin response =>
    cases origin with
    | worker => exact ext.produced _ h
    | _ => trivial
  | _ => trivial

theorem owner_modify {f : Oneshot → Oneshot} (hf : ∀ o, (f o).owner = o.owner) (tx k : ℕ) :
    ((s.oneshots.modify tx f)[k]?).map Oneshot.owner = s.owner k := by
  rw [List.getElem?_modify, Exchange.owner]
  cases s.oneshots[k]? with
  | none => rfl
  | some o =>
    by_cases h : tx = k
    · simp [h, hf]
    · simp [h]

theorem put_owner (content : Content) (o : Oneshot) : (o.put content).owner = o.owner := by
  unfold Oneshot.put
  split <;> rfl

theorem Turn.sound {stage stage' : Stage} {i : ℕ} (h : Turn s.oneshots stage stage')
    (hs : Sound config s) (hi : stage.Sound s i) : stage'.Sound s i := by
  cases h with
  | answered rx isGrpc o response hget value =>
    have howner : o.owner = i := by
      simpa [Stage.Sound, Exchange.owner, hget] using hi
    exact howner ▸ hs.oneshots rx o hget response value
  | full | sleeps | wakes => exact hi
  | _ => trivial

theorem Sound.enter (hs : Sound config s) (i : ℕ) (h : Handler) {stage : Stage}
    (hstage : stage.Sound s i) : Sound config (s.enter i h stage) where
  handlers := by
    have ext : Extends s (s.enter i h stage) := .refl rfl rfl
    apply forall_get_set
    · exact fun j g hj => (hs.handlers j g hj).mono ext
    · exact hstage.mono ext
  queue := hs.queue
  threads := hs.threads
  oneshots := hs.oneshots
  room := hs.room

theorem Sound.modify (hs : Sound config s) (tx : ℕ) (f : Oneshot → Oneshot)
    (hf : ∀ o, (f o).owner = o.owner)
    (hvalue : ∀ o, s.oneshots[tx]? = some o → ∀ response, (f o).content = .value response →
      (o.owner, response) ∈ s.produced) :
    Sound config { s with oneshots := s.oneshots.modify tx f } := by
  have ext : Extends s { s with oneshots := s.oneshots.modify tx f } :=
    ⟨fun k i ho => (owner_modify hf tx k).trans ho, fun _ hx => hx⟩
  refine ⟨?_, ?_, ?_, ?_, hs.room⟩
  · exact fun i h hget => (hs.handlers i h hget).mono ext
  · exact fun work hwork => ext.owner _ _ (hs.queue work hwork)
  · exact fun thread hthread work hwork => ext.owner _ _ (hs.threads thread hthread work hwork)
  · apply forall_get_modify hs.oneshots
    intro o ho response hresponse
    rw [hf]
    exact hvalue o ho response hresponse

theorem Sound.put (hs : Sound config s) (tx : ℕ) (content : Content)
    (hvalue : ∀ i response, s.owner tx = some i → content = .value response →
      (i, response) ∈ s.produced) : Sound config (s.put tx content) := by
  apply hs.modify tx (Oneshot.put content) (put_owner content)
  intro o ho response hresponse
  unfold Oneshot.put at hresponse
  split at hresponse
  · exact hvalue o.owner response (by simp [Exchange.owner, ho]) hresponse
  · exact hs.oneshots tx o ho response hresponse

/-- A sender that is dropped sends nothing. -/
theorem Sound.drop_sender (hs : Sound config s) (tx : ℕ) :
    Sound config (s.put tx .senderDropped) :=
  hs.put tx .senderDropped fun _ _ _ h => nomatch h

theorem Sound.thread (hs : Sound config s) (w : ℕ) (thread : Thread)
    (hthread : ∀ work, thread.work = some work → s.Owns work) :
    Sound config { s with threads := s.threads.set w thread } where
  handlers i h hget := (hs.handlers i h hget).mono (.refl rfl rfl)
  queue := hs.queue
  threads := forall_mem_set hs.threads hthread
  oneshots := hs.oneshots
  room := hs.room

theorem Sound.enqueue (hs : Sound config s) {work : RequestWithCompletion} (hwork : s.Owns work)
    (room : s.queue.length < config.channelCapacity) :
    Sound config { s with queue := s.queue ++ [work] } where
  handlers i h hget := (hs.handlers i h hget).mono (.refl rfl rfl)
  queue := by
    intro x hx
    rcases List.mem_append.mp hx with hx | hx
    · exact hs.queue x hx
    · rw [List.mem_singleton.mp hx]
      exact hwork
  threads := hs.threads
  oneshots := hs.oneshots
  room := by simpa using room

theorem Sound.dequeue (hs : Sound config s) {queue : List RequestWithCompletion}
    (hqueue : queue <:+ s.queue) : Sound config { s with queue := queue } where
  handlers i h hget := (hs.handlers i h hget).mono (.refl rfl rfl)
  queue work hwork := hs.queue work (hqueue.subset hwork)
  threads := hs.threads
  oneshots := hs.oneshots
  room := hqueue.length_le.trans hs.room

theorem Sound.oneshot (hs : Sound config s) (i : ℕ) :
    Sound config { s with oneshots := s.oneshots ++ [⟨i, .empty⟩] } := by
  have ext : Extends s { s with oneshots := s.oneshots ++ [⟨i, .empty⟩] } := by
    refine ⟨fun tx j ho => ?_, fun _ hx => hx⟩
    rcases Option.map_eq_some_iff.mp ho with ⟨o, ho, howner⟩
    have hlt := (List.getElem?_eq_some_iff.mp ho).1
    simp [Exchange.owner, List.getElem?_append_left hlt, ho, howner]
  refine ⟨?_, ?_, ?_, ?_, hs.room⟩
  · exact fun j g hj => (hs.handlers j g hj).mono ext
  · exact fun work hwork => ext.owner _ _ (hs.queue work hwork)
  · exact fun thread hthread work hw => ext.owner _ _ (hs.threads thread hthread work hw)
  · exact forall_get_append hs.oneshots fun _ h => nomatch h

theorem Sound.produce (hs : Sound config s) (i : ℕ) (response : HyperResponse) :
    Sound config { s with produced := s.produced ++ [(i, response)] } := by
  have ext : Extends s { s with produced := s.produced ++ [(i, response)] } :=
    ⟨fun _ _ ho => ho, fun _ hx => List.mem_append_left _ hx⟩
  refine ⟨?_, hs.queue, hs.threads, ?_, hs.room⟩
  · exact fun j g hj => (hs.handlers j g hj).mono ext
  · exact fun k o ho r hr => ext.produced _ (hs.oneshots k o ho r hr)

theorem Sound.unseen (hs : Sound config s) (disconnected : Bool) (now : ℕ) (calls : List ℕ) :
    Sound config { s with disconnected := disconnected, now := now, calls := calls } where
  handlers i h hget := (hs.handlers i h hget).mono (.refl rfl rfl)
  queue := hs.queue
  threads := hs.threads
  oneshots := hs.oneshots
  room := hs.room

theorem Sound.drop_senders (queue : List RequestWithCompletion) (hs : Sound config s) :
    Sound config (queue.foldl (fun s work => s.put work.responseTx .senderDropped) s) := by
  induction queue generalizing s with
  | nil => exact hs
  | cons work queue ih => exact ih (hs.drop_sender work.responseTx)

theorem Sound.step (hs : Sound config s) (h : Step config s t) : Sound config t := by
  cases h with
  | arrives parts declaredLen =>
    refine ⟨?_, hs.queue, hs.threads, hs.oneshots, hs.room⟩
    apply forall_get_append
    · exact fun j g hj => (hs.handlers j g hj).mono (.refl rfl rfl)
    · trivial
  | turns i h stage hget turn => exact hs.enter i h (turn.sound hs (hs.handlers i h hget))
  | offers i h declaredLen since request hget hstage =>
    apply (hs.oneshot i).enter
    exact ⟨rfl, by simp [Exchange.Owns, Exchange.owner]⟩
  | queues i h completion start isGrpc hget hstage room =>
    have hown := hs.handlers i h hget
    rw [hstage] at hown
    exact (hs.enqueue hown.2 room).enter i h (hown.1 ▸ hown.2)
  | hands i h completion start isGrpc w hget hstage receiving =>
    have hown := hs.handlers i h hget
    rw [hstage] at hown
    apply (hs.thread w (.holding completion) _).enter i h (hown.1 ▸ hown.2)
    intro work hw
    cases hw
    exact hown.2
  | leaves i h rx isGrpc hget hstage =>
    apply (hs.modify rx Oneshot.dropReceiver (fun _ => rfl) _).enter i h
    · trivial
    · exact fun _ _ _ hvalue => nomatch hvalue
  | hires =>
    refine ⟨?_, hs.queue, ?_, hs.oneshots, hs.room⟩
    · exact fun j g hj => (hs.handlers j g hj).mono (.refl rfl rfl)
    · intro thread hthread work hw
      rcases List.mem_append.mp hthread with hthread | hthread
      · exact hs.threads thread hthread work hw
      · rw [List.mem_singleton.mp hthread] at hw
        cases hw
  | takes w thread work queue hget free hqueue =>
    have hsuffix : queue <:+ s.queue := hqueue ▸ List.suffix_cons work queue
    apply (hs.dequeue hsuffix).thread w (.holding work)
    intro work' hw
    cases hw
    exact hs.queue work (hqueue ▸ List.mem_cons_self)
  | moves w thread thread' hget free free' =>
    apply hs.thread w thread'
    intro work hw
    rw [free'] at hw
    cases hw
  | calls w work hget =>
    have hthread := hs.thread w (.calling work) fun work' hw =>
      hs.threads _ (List.mem_of_getElem? hget) work' hw
    exact hthread.unseen s.disconnected s.now _
  | responds w thread work response hget taken =>
    have hown : s.Owns work := hs.threads thread (List.mem_of_getElem? hget) work taken
    have hthread := hs.thread w .idle fun _ hw => nomatch hw
    apply (hthread.produce work.id response).put
    intro i r howner hr
    cases hr
    cases hown.symm.trans howner
    exact List.mem_append_right _ (List.mem_singleton_self _)
  | abandons w thread work hget taken =>
    exact (hs.thread w .ended fun _ hw => nomatch hw).drop_sender work.responseTx
  | disconnects =>
    exact ((hs.dequeue List.nil_suffix).unseen true s.now s.calls).drop_senders s.queue
  | ticks => exact hs.unseen s.disconnected _ s.calls

end HyperRuby.Http
