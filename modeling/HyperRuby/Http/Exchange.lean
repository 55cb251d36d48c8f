import HyperRuby.Http.Owners

/-! # Each request is handed over once

For each call of `handle_request`, the places of its request behind the channel and the place
in front of it hold one request between them: a step may lose it, and never adds to it.
-/
namespace HyperRuby.Http
open Library

variable {config : HandoffConfig} {s t : Exchange}

/-- What is counted behind the channel: requests passed to the block, or responses produced. -/
inductive Count where
  | calls
  | responses
  deriving DecidableEq, Repr

def Count.log (count : Count) (s : Exchange) : List ℕ :=
  match count with
  | .calls => s.calls
  | .responses => s.produced.map Prod.fst

def RequestWithCompletion.mark (i : ℕ) (work : RequestWithCompletion) : ℕ :=
  if work.id = i then 1 else 0

/-- A request in the block has been passed to it and has no response yet. -/
def Thread.mark (count : Count) (i : ℕ) : Thread → ℕ
  | .holding work => work.mark i
  | .calling work => match count with
    | .calls => 0
    | .responses => work.mark i
  | .idle | .receiving | .ended => 0

def queued (i : ℕ) (queue : List RequestWithCompletion) : ℕ :=
  (queue.map (RequestWithCompletion.mark i)).sum

def taken (count : Count) (i : ℕ) (threads : List Thread) : ℕ :=
  (threads.map (Thread.mark count i)).sum

/-- The places of a request behind the channel. -/
def Exchange.beyond (s : Exchange) (count : Count) (i : ℕ) : ℕ :=
  queued i s.queue + taken count i s.threads + (count.log s).count i

/-- The request has not left the handler, and never will if the handler has returned. -/
def Stage.kept : Stage → ℕ
  | .waiting _ _ | .returned .worker _ | .returned .noAnswer _ | .dropped => 0
  | _ => 1

def Exchange.kept (s : Exchange) (i : ℕ) : ℕ :=
  ((s.handlers[i]?).map (fun h => h.stage.kept)).getD 1

theorem Turn.kept {oneshots : List Oneshot} {stage stage' : Stage}
    (h : Turn oneshots stage stage') : stage'.kept ≤ stage.kept := by
  cases h with
  | dropped => exact Nat.zero_le _
  | _ => exact le_rfl

theorem kept_enter {i : ℕ} {h : Handler} (hget : s.handlers[i]? = some h) (stage : Stage) (j : ℕ) :
    (s.enter i h stage).kept j = if j = i then stage.kept else s.kept j := by
  have hlt : i < s.handlers.length := (List.getElem?_eq_some_iff.mp hget).1
  unfold Exchange.kept Exchange.enter
  by_cases hj : j = i
  · subst hj
    simp [hlt]
  · have hne : i ≠ j := fun h => hj h.symm
    simp [hj, List.getElem?_set_ne hne]

theorem kept_of_get {i : ℕ} {h : Handler} (hget : s.handlers[i]? = some h) :
    s.kept i = h.stage.kept := by
  simp [Exchange.kept, hget]

theorem kept_le_of_enter {i : ℕ} {h : Handler} (hget : s.handlers[i]? = some h) {stage : Stage}
    (hle : stage.kept ≤ h.stage.kept) (j : ℕ) : (s.enter i h stage).kept j ≤ s.kept j := by
  rw [kept_enter hget]
  split_ifs with hj
  · rw [hj, kept_of_get hget]
    exact hle
  · exact le_rfl

theorem kept_arrive (h : Handler) (hkept : h.stage.kept = 1) (j : ℕ) :
    ({ s with handlers := s.handlers ++ [h] } : Exchange).kept j = s.kept j := by
  unfold Exchange.kept
  rcases lt_trichotomy j s.handlers.length with hlt | heq | hgt
  · rw [List.getElem?_append_left hlt]
  · subst heq
    simp [hkept]
  · simp [List.getElem?_append_right hgt.le, List.getElem?_eq_none hgt.le,
      Nat.sub_ne_zero_of_lt hgt]

theorem kept_send {i : ℕ} {h : Handler} {completion : RequestWithCompletion} {start : Option ℕ}
    (hget : s.handlers[i]? = some h) (hstage : h.stage = .sending completion start)
    (hid : completion.id = i) (rx : ℕ) (isGrpc : Bool) (j : ℕ) :
    (s.enter i h (.waiting rx isGrpc)).kept j + completion.mark j = s.kept j := by
  rw [kept_enter hget, RequestWithCompletion.mark, hid]
  by_cases hj : j = i
  · rw [if_pos hj, if_pos hj.symm, hj, kept_of_get hget, hstage]
    rfl
  · rw [if_neg hj, if_neg (fun h => hj h.symm), Nat.add_zero]

theorem queued_append (i : ℕ) (queue : List RequestWithCompletion) (work : RequestWithCompletion) :
    queued i (queue ++ [work]) = queued i queue + work.mark i := by
  simp [queued]

theorem queued_cons (i : ℕ) (queue : List RequestWithCompletion) (work : RequestWithCompletion) :
    queued i (work :: queue) = work.mark i + queued i queue := by
  simp [queued]

theorem taken_set {threads : List Thread} {w : ℕ} {thread : Thread}
    (hget : threads[w]? = some thread) (thread' : Thread) (count : Count) (i : ℕ) :
    taken count i (threads.set w thread') + thread.mark count i =
      taken count i threads + thread'.mark count i := by
  rcases tally_set (Thread.mark count i) hget thread' with ⟨rest, hold, hnew⟩
  unfold taken
  omega

theorem mark_of_free {thread : Thread} (free : thread.work = none) (count : Count) (i : ℕ) :
    thread.mark count i = 0 := by
  cases thread with
  | holding work => cases free
  | calling work => cases free
  | _ => rfl

theorem count_append (log : List ℕ) (work : RequestWithCompletion) (i : ℕ) :
    (log ++ [work.id]).count i = log.count i + work.mark i := by
  simp [RequestWithCompletion.mark, List.count_singleton]

theorem drop_senders_frame (queue : List RequestWithCompletion) (u : Exchange) :
    ∃ oneshots, queue.foldl (fun s work => s.put work.responseTx .senderDropped) u =
      { u with oneshots := oneshots } := by
  induction queue generalizing u with
  | nil => exact ⟨u.oneshots, rfl⟩
  | cons work queue ih =>
    rcases ih (u.put work.responseTx .senderDropped) with ⟨oneshots, h⟩
    exact ⟨oneshots, h⟩

theorem calls_tokens {w : ℕ} {work : RequestWithCompletion}
    (hget : s.threads[w]? = some (.holding work)) (count : Count) (j : ℕ) :
    ({ s with
        threads := s.threads.set w (.calling work)
        calls := s.calls ++ [work.id] } : Exchange).beyond count j = s.beyond count j := by
  have htaken := taken_set hget (.calling work) count j
  cases count with
  | calls =>
    have hlog := count_append s.calls work j
    simp only [Exchange.beyond, Count.log, Thread.mark] at htaken hlog ⊢
    omega
  | responses =>
    simp only [Exchange.beyond, Count.log, Thread.mark] at htaken ⊢
    omega

/-- The response of a thread takes the place of its request. -/
theorem responds_tokens {w : ℕ} {thread : Thread} {work : RequestWithCompletion}
    (hget : s.threads[w]? = some thread) (htaken : thread.work = some work)
    (response : HyperResponse) (count : Count) (j : ℕ) :
    (s.respond w work response).beyond count j ≤ s.beyond count j := by
  have hset := taken_set hget .idle count j
  cases count with
  | calls =>
    simp only [Exchange.beyond, Exchange.respond, Exchange.put, Count.log, Thread.mark] at hset ⊢
    omega
  | responses =>
    have hmark : thread.mark .responses j = work.mark j := by
      cases thread with
      | holding x | calling x =>
        cases htaken
        rfl
      | _ => cases htaken
    have hlog := count_append (s.produced.map Prod.fst) work j
    rw [hmark] at hset
    simp only [Exchange.beyond, Exchange.respond, Exchange.put, Count.log, Thread.mark,
      List.map_append, List.map_cons, List.map_nil] at hset hlog ⊢
    omega

/-- Where requests move between the queue and the threads, those places are all that counts. -/
theorem places_tokens (hhandlers : t.handlers = s.handlers) (hcalls : t.calls = s.calls)
    (hproduced : t.produced = s.produced) {count : Count} {j : ℕ}
    (h : queued j t.queue + taken count j t.threads ≤
      queued j s.queue + taken count j s.threads) :
    t.beyond count j + t.kept j ≤ s.beyond count j + s.kept j := by
  have hkept : t.kept j = s.kept j := by rw [Exchange.kept, hhandlers, Exchange.kept]
  have hlog : count.log t = count.log s := by cases count <;> simp [Count.log, hcalls, hproduced]
  unfold Exchange.beyond
  rw [hkept, hlog]
  omega

theorem Step.tokens_le (hs : Sound config s) (h : Step config s t) (count : Count) (j : ℕ) :
    t.beyond count j + t.kept j ≤ s.beyond count j + s.kept j := by
  cases h with
  | arrives parts declaredLen =>
    rw [kept_arrive _ rfl]
    exact le_rfl
  | turns i h stage hget turn =>
    exact Nat.add_le_add_left (kept_le_of_enter hget turn.kept j) (s.beyond count j)
  | offers i h declaredLen since request hget hstage =>
    have hle : (Stage.sending ⟨i, request, s.oneshots.length⟩ none).kept ≤ h.stage.kept := by
      rw [hstage]
      exact le_rfl
    exact Nat.add_le_add_left (kept_le_of_enter hget hle j) (s.beyond count j)
  | queues i h completion start isGrpc hget hstage room =>
    have hown := hs.handlers i h hget
    rw [hstage] at hown
    have hkept := kept_send hget hstage hown.1 completion.responseTx isGrpc j
    have hqueued := queued_append j s.queue completion
    show queued j (s.queue ++ [completion]) + taken count j s.threads + (count.log s).count j +
      (s.enter i h (.waiting completion.responseTx isGrpc)).kept j ≤ _
    unfold Exchange.beyond
    omega
  | hands i h completion start isGrpc w hget hstage receiving =>
    have hown := hs.handlers i h hget
    rw [hstage] at hown
    have hkept := kept_send hget hstage hown.1 completion.responseTx isGrpc j
    have htaken := taken_set receiving (.holding completion) count j
    rw [mark_of_free rfl] at htaken
    show queued j s.queue + taken count j (s.threads.set w (.holding completion)) +
      (count.log s).count j + (s.enter i h (.waiting completion.responseTx isGrpc)).kept j ≤ _
    unfold Exchange.beyond
    simp only [Thread.mark] at htaken
    omega
  | leaves i h rx isGrpc hget hstage =>
    exact Nat.add_le_add_left (kept_le_of_enter hget (Nat.zero_le _) j) (s.beyond count j)
  | hires =>
    refine places_tokens (by rfl) (by rfl) (by rfl) ?_
    simp [taken, Thread.mark]
  | takes w thread work queue hget free hqueue =>
    have htaken := taken_set hget (.holding work) count j
    have hqueued := queued_cons j queue work
    rw [mark_of_free free] at htaken
    rw [← hqueue] at hqueued
    refine places_tokens (by rfl) (by rfl) (by rfl) ?_
    show queued j queue + taken count j (s.threads.set w (.holding work)) ≤ _
    simp only [Thread.mark] at htaken
    omega
  | moves w thread thread' hget free free' =>
    have htaken := taken_set hget thread' count j
    rw [mark_of_free free, mark_of_free free'] at htaken
    refine places_tokens (by rfl) (by rfl) (by rfl) ?_
    show queued j s.queue + taken count j (s.threads.set w thread') ≤ _
    omega
  | calls w work hget =>
    exact Nat.add_le_add_right (calls_tokens hget count j).le (s.kept j)
  | responds w thread work response hget hwork =>
    exact Nat.add_le_add_right (responds_tokens hget hwork response count j) (s.kept j)
  | abandons w thread work hget hwork =>
    have htaken := taken_set hget .ended count j
    have hfree : Thread.ended.mark count j = 0 := rfl
    refine places_tokens (by rfl) (by rfl) (by rfl) ?_
    show queued j s.queue + taken count j (s.threads.set w .ended) ≤ _
    omega
  | disconnects =>
    rcases drop_senders_frame s.queue { s with queue := [], disconnected := true }
      with ⟨oneshots, hframe⟩
    rw [hframe]
    refine places_tokens (by rfl) (by rfl) (by rfl) ?_
    simp [queued]
  | ticks => exact le_rfl

section Runs
variable (config)

theorem init_sound : Sound config .init where
  handlers i h hget := by simp [Exchange.init] at hget
  queue _ hwork := nomatch hwork
  threads _ hthread := nomatch hthread
  oneshots k o ho := by simp [Exchange.init] at ho
  room := Nat.zero_le _

variable {config}

abbrev Run (config : HandoffConfig) : Exchange → Prop :=
  Reached (Exchange.exec config) (fun _ _ => True) .init

theorem run_sound (h : Run config s) : Sound config s :=
  h.invariant (Sound config) (init_sound config) fun _ _ _ _ _ hs he => hs.step (exec_step he)

theorem run_tokens (h : Run config s) (count : Count) (i : ℕ) :
    s.beyond count i + s.kept i ≤ 1 := by
  apply h.invariant (fun s => s.beyond count i + s.kept i ≤ 1)
  · cases count <;> simp [Exchange.init, Exchange.beyond, Exchange.kept, queued, taken, Count.log]
  · exact fun s a t hs _ hle he => ((exec_step he).tokens_le (run_sound hs) count i).trans hle

theorem Turn.going {oneshots : List Oneshot} {stage stage' : Stage}
    (h : Turn oneshots stage stage') (origin : Origin) (response : HyperResponse) :
    stage ≠ .returned origin response := by
  cases h with
  | dropped _ going => exact going origin response
  | _ => exact nofun

theorem Step.returned {i : ℕ} {h : Handler} {origin : Origin} {response : HyperResponse}
    (hstep : Step config s t) (hget : s.handlers[i]? = some h)
    (hstage : h.stage = .returned origin response) : t.handlers[i]? = some h := by
  have hother {j : ℕ} {g : Handler} (hj : s.handlers[j]? = some g) (stage : Stage)
      (hgoing : ∀ origin response, g.stage ≠ .returned origin response) :
      (s.handlers.set j { g with stage := stage })[i]? = some h := by
    have hne : j ≠ i := by
      intro hji
      rw [hji, hget] at hj
      cases hj
      exact hgoing _ _ hstage
    rw [List.getElem?_set_ne hne]
    exact hget
  cases hstep with
  | arrives => exact (List.getElem?_append_left (List.getElem?_eq_some_iff.mp hget).1).trans hget
  | turns j g stage hj turn => exact hother hj stage turn.going
  | offers _ _ _ _ _ hj hg | queues _ _ _ _ _ hj hg | hands _ _ _ _ _ _ hj hg
  | leaves _ _ _ _ hj hg =>
    apply hother hj
    simp [hg]
  | disconnects =>
    rcases drop_senders_frame s.queue { s with queue := [], disconnected := true }
      with ⟨oneshots, hframe⟩
    rw [hframe]
    exact hget
  | _ => exact hget

theorem run_returned {i : ℕ} {h : Handler} {origin : Origin} {response : HyperResponse}
    (hrun : Reached (Exchange.exec config) (fun _ _ => True) s t) (hget : s.handlers[i]? = some h)
    (hstage : h.stage = .returned origin response) : t.handlers[i]? = some h :=
  hrun.invariant (fun t => t.handlers[i]? = some h) hget
    fun _ _ _ _ _ hs he => (exec_step he).returned hs hstage

theorem run_log (h : Run config s) (count : Count) (i : ℕ) :
    (count.log s).count i + s.kept i ≤ 1 := by
  have hle := run_tokens h count i
  unfold Exchange.beyond at hle
  omega

theorem produced_unique (h : Run config s) {i : ℕ} {r r' : HyperResponse}
    (hr : (i, r) ∈ s.produced) (hr' : (i, r') ∈ s.produced) : r' = r := by
  have hle : (s.produced.map Prod.fst).count i ≤ 1 :=
    (Nat.le_add_right _ _).trans (run_log h .responses i)
  rcases List.append_of_mem hr with ⟨before, behind, hsplit⟩
  rw [hsplit, List.map_append, List.map_cons, List.count_append, List.count_cons_self] at hle
  have hbefore : i ∉ before.map Prod.fst := List.count_eq_zero.mp (by omega)
  have hbehind : i ∉ behind.map Prod.fst := List.count_eq_zero.mp (by omega)
  rw [hsplit, List.mem_append, List.mem_cons] at hr'
  rcases hr' with hr' | hr' | hr'
  · exact absurd (List.mem_map_of_mem hr') hbefore
  · exact congrArg Prod.snd hr'
  · exact absurd (List.mem_map_of_mem hr') hbehind

/-- A request refused before it was handed over never reaches the block, no request reaches it
twice, a worker's response goes to the call it was produced for, and the queue stays within
the capacity. -/
theorem handoff_exactly_once (h : Run config s) :
    (∀ i handler origin response, s.handlers[i]? = some handler →
      handler.stage = .returned origin response → origin = .tooBusy ∨ origin = .shuttingDown →
      ∀ t, Reached (Exchange.exec config) (fun _ _ => True) s t → i ∉ t.calls) ∧
    (∀ i, s.calls.count i ≤ 1) ∧
    (∀ i handler response, s.handlers[i]? = some handler →
      handler.stage = .returned .worker response →
      ∀ r, (i, r) ∈ s.produced ↔ r = response) ∧
    s.queue.length ≤ config.channelCapacity := by
  have hs := run_sound h
  refine ⟨?_, ?_, ?_, hs.room⟩
  · intro i handler origin response hget hstage horigin t ht
    have hkept : t.kept i = 1 := by
      rw [kept_of_get (run_returned ht hget hstage), hstage]
      rcases horigin with rfl | rfl <;> rfl
    have hle : t.calls.count i + t.kept i ≤ 1 := run_log (h.trans ht) .calls i
    exact List.count_eq_zero.mp (by omega)
  · exact fun i => (Nat.le_add_right _ _).trans (run_log h .calls i)
  · intro i handler response hget hstage r
    have hmem := hs.handlers i handler hget
    rw [hstage] at hmem
    constructor
    · exact fun hr => produced_unique h hmem hr
    · rintro rfl
      exact hmem

/-- Two requests for one place: the second one polls until its time is up, and the first one
is answered. -/
def crowded : List Action :=
  List.flatten [
    [.arrive ⟨.get, ascii "/", []⟩ none, .arrive ⟨.get, ascii "/", []⟩ none,
      .handler 0 (.body (some [])), .handler 1 (.body (some [])),
      .handler 0 (.proceed none), .handler 1 (.proceed none), .handler 1 (.proceed none)],
    List.replicate 10 .tick,
    [.handler 1 (.proceed none), .handler 1 (.proceed none), .handler 1 (.proceed none)],
    [.hire, .thread 0 .proceed, .thread 0 .proceed,
      .thread 0 (.result (.response (plainText 200 "hello"))), .handler 0 (.proceed none)]]

theorem handoff_exactly_once_crowded :
    ∃ s, Run ⟨30000, 1, 5⟩ s ∧
      (s.handlers[1]?.any (fun h => h.stage = .returned .tooBusy (tooBusyResponse false)) = true ∧
        1 ∉ s.calls) ∧
      (s.handlers[0]?.any (fun h => h.stage = .returned .worker (plainText 200 "hello")) = true ∧
        s.calls.count 0 = 1 ∧ ∀ r, (0, r) ∈ s.produced ↔ r = plainText 200 "hello") := by
  have hfacts : ∃ s, Run ⟨30000, 1, 5⟩ s ∧
      ((s.handlers[1]?.any fun h => h.stage = .returned .tooBusy (tooBusyResponse false)) = true ∧
      (s.handlers[0]?.any fun h => h.stage = .returned .worker (plainText 200 "hello")) = true ∧
      s.calls.count 0 = 1) :=
    exists_reached crowded (by decide +kernel)
  rcases hfacts with ⟨s, hrun, hrefused, hanswered, hcalled⟩
  rcases handoff_exactly_once hrun with ⟨hnever, -, hown, -⟩
  refine ⟨s, hrun, ⟨hrefused, ?_⟩, hanswered, hcalled, ?_⟩
  · rcases Option.any_eq_true_iff_get _ _ |>.mp hrefused with ⟨hsome, hstage⟩
    exact hnever 1 _ .tooBusy _ (Option.some_get hsome).symm (by simpa using hstage) (.inl rfl) s
      .start
  · rcases Option.any_eq_true_iff_get _ _ |>.mp hanswered with ⟨hsome, hstage⟩
    exact hown 0 _ _ (Option.some_get hsome).symm (by simpa using hstage)

end Runs
end HyperRuby.Http
