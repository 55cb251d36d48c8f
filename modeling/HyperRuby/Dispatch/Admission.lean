import HyperRuby.Dispatch.Door
import HyperRuby.Dispatch.Credits

/-! # The connection limit

No more connections are admitted than the limit allows, the counter is never lowered from
zero, opened and closed connections balance, and each connection runs `close_stream` once.
-/
namespace HyperRuby.Dispatch
open Framing Library

section Closing
variable {config : Config} {s t : System}

def Reader.closedStream : Reader → ℕ
  | .closed | .done => 1
  | _ => 0

def System.closedStream (i : ℕ) (s : System) : ℕ :=
  ((s.conns.map Conn.reader)[i]?.map Reader.closedStream).getD 0

def System.closes (i : ℕ) (s : System) : Action → ℕ
  | .reader j _ => if j = i ∧ (s.conns.map Conn.reader)[i]? = some .closing then 1 else 0
  | _ => 0

theorem Reader.closedStream_of_admitted {r : Reader} (h : r.admitted = 1) :
    r.closedStream = 0 := by
  cases r <;> first | rfl | cases h

theorem DoorStep.closedStream {sh sh' : Shared} {r r' : Reader} (h : DoorStep sh r sh' r') :
    r'.closedStream = r.closedStream + if r = .closing then 1 else 0 := by
  cases h with
  | stays door going before after =>
    rw [Reader.closedStream_of_admitted before, Reader.closedStream_of_admitted after,
      if_neg going]
  | leaves => rfl
  | counts => rfl

theorem closedStream_of_readers (i : ℕ)
    (h : t.conns.map Conn.reader = s.conns.map Conn.reader) :
    t.closedStream i = s.closedStream i := by
  rw [System.closedStream, h, System.closedStream]

theorem step_closedStream (i : ℕ) {a : Action} (h : System.exec config s a = some t) :
    t.closedStream i = s.closedStream i + s.closes i a := by
  cases exec_step h with
  | listener j _ l sh l' spawned found step =>
    simp only [System.closedStream, System.closes, List.map_append, List.getElem?_append,
      List.length_map, Nat.add_zero]
    split_ifs with hi
    · rfl
    · have hnone : (s.conns.map Conn.reader)[i]? = none := by
        rw [List.getElem?_eq_none_iff, List.length_map]
        exact Nat.le_of_not_lt hi
      rw [hnone]
      cases hc : (spawned.toList.map Conn.reader)[i - s.conns.length]? with
      | none => rfl
      | some r =>
        obtain ⟨c, hmem, rfl⟩ := List.mem_map.mp (List.mem_of_getElem? hc)
        obtain ⟨peer, rfl⟩ := step.fresh hmem
        exact Reader.closedStream_of_admitted (start_admitted config peer)
  | reader j _ c sh c' found step =>
    simp only [System.closedStream, System.closes, List.map_set, List.getElem?_set, List.length_map]
    by_cases hj : j = i
    · subst hj
      have hlt := (List.getElem?_eq_some_iff.mp found).1
      simp only [hlt, if_true, List.getElem?_map, found, Option.map_some, Option.getD_some,
        true_and, Option.some.injEq]
      exact step.door.closedStream
    · simp only [hj, false_and, if_false, Nat.add_zero]
  | delivery j c sh c' found step =>
    exact closedStream_of_readers i (map_set_of_eq found step.door.2)
  | receiver | task | worker | stopAccepting | wait | complete | timeout | swap | abandon
  | elsewhere =>
    exact closedStream_of_readers i rfl

end Closing

section Limit
variable {config : Config} {s : System}

/-- An accept loop is between its `fetch_add` and the undo of it. -/
def Listener.undoing (config : Config) : Listener → Bool
  | .counted _ before => config.maxConnections ≤ before
  | .refusing => true
  | _ => false

/-- Some task has changed the shared counter for an admitted connection and has yet to count it
as opened or closed. -/
def System.Updating (config : Config) (s : System) : Prop :=
  (∃ l ∈ s.listeners, l.admitted config = 1 ∧ l.opened = 0) ∨ ∃ c ∈ s.conns, c.reader = .closed

instance (config : Config) (s : System) : Decidable (s.Updating config) :=
  inferInstanceAs (Decidable (_ ∨ _))

theorem held_eq_admitted (h : ∀ l ∈ s.listeners, l.undoing config = false) :
    s.held = s.admitted config := by
  have hmap : s.listeners.map Listener.held = s.listeners.map (Listener.admitted config) := by
    apply List.map_congr_left
    intro l hl
    have hundoing := h l hl
    cases l <;> simp_all [Listener.undoing, Listener.held, Listener.admitted]
  rw [System.held, System.admitted, hmap]

theorem unclosed_eq_admitted (h : ¬ s.Updating config) : s.unclosed = s.admitted config := by
  simp only [System.Updating, not_or, not_exists, not_and] at h
  have hlisteners : s.listeners.map Listener.opened =
      s.listeners.map (Listener.admitted config) := by
    apply List.map_congr_left
    intro l hl
    have hopened := h.1 l hl
    cases l <;> simp_all [Listener.opened, Listener.admitted]
  have hconns : s.conns.map (fun c => c.reader.unclosed) =
      s.conns.map (fun c => c.reader.admitted) := by
    apply List.map_congr_left
    intro c hc
    have hclosed := h.2 c hc
    cases hr : c.reader <;> simp_all [Reader.unclosed, Reader.admitted]
  rw [System.unclosed, System.admitted, hlisteners, hconns]

theorem Doorkept.pos_of_listener (h : Doorkept config s) {l : Listener} (hl : l ∈ s.listeners)
    (hheld : l.held = 1) : 1 ≤ s.shared.connections := by
  have hmem := List.mem_map_of_mem (f := Listener.held) hl
  have hle := List.single_le_sum (fun _ _ => Nat.zero_le _) _ hmem
  rw [h.places, System.held]
  omega

theorem Doorkept.pos_of_conn (h : Doorkept config s) {c : Conn} (hc : c ∈ s.conns)
    (hadmitted : c.reader.admitted = 1) : 1 ≤ s.shared.connections := by
  have hle := List.single_le_sum (fun _ _ => Nat.zero_le _) _
    (List.mem_map_of_mem (f := fun c : Conn => c.reader.admitted) hc)
  rw [h.places, System.held]
  omega

/-- In every state of every run, admissions are within the limit and the counter is not lowered
from zero. It counts the admitted connections unless an accept loop is about to take back its
place, and connections opened and closed balance unless a task is between two updates. A
connection runs `close_stream` once if it has closed and not at all before. -/
theorem connection_limit {actions : List Action}
    (h : run (System.exec config) (fun _ _ => True) (.start config) actions = some s) :
    s.admitted config ≤ config.maxConnections ∧
    ((∃ l ∈ s.listeners, l = .refusing) ∨ (∃ c ∈ s.conns, c.reader = .closing) →
      1 ≤ s.shared.connections) ∧
    ((∀ l ∈ s.listeners, l.undoing config = false) →
      s.shared.connections = s.admitted config) ∧
    (¬ s.Updating config → s.shared.counters.connectionsOpened =
      s.shared.counters.connectionsClosed + s.admitted config) ∧
    ∀ i c, s.conns[i]? = some c →
      runTally (System.exec config) (System.closes i) (.start config) actions =
        if c.reader = .closed ∨ c.reader = .done then 1 else 0 := by
  have hdoor : Doorkept config s := doorkept (.of_run .start h)
  refine ⟨hdoor.limit, ?_, ?_, ?_, ?_⟩
  · rintro (⟨l, hl, rfl⟩ | ⟨c, hc, hreader⟩)
    · exact hdoor.pos_of_listener hl rfl
    · exact hdoor.pos_of_conn hc (by rw [hreader]; rfl)
  · intro hundo
    rw [hdoor.places, held_eq_admitted hundo]
  · intro hbetween
    rw [hdoor.balance, unclosed_eq_admitted hbetween]
  · intro i c hc
    have htally := run_tally (System.closedStream i) (fun _ _ _ => step_closedStream i) h
    have hstart : (System.start config).closedStream i = 0 := rfl
    rw [hstart, Nat.zero_add] at htally
    rw [← htally, System.closedStream, List.getElem?_map, hc]
    cases hr : c.reader <;> simp [Reader.closedStream, hr]

/-- A connection that is accepted, reads the end of its stream and closes. -/
def passing : List Action :=
  [.listener 0 (.accepted none), .listener 0 .go, .listener 0 .go, .listener 0 .go,
    .reader 0 (.go 0), .reader 0 .eof, .reader 0 (.go 0), .delivery 0, .reader 0 (.go 0),
    .reader 0 (.go 0), .reader 0 (.go 0)]

theorem connection_limit_passing :
    ∃ s, run (System.exec .small) (fun _ _ => True) (.start .small) passing = some s ∧
      s.admitted .small ≤ 1 ∧
      runTally (System.exec .small) (System.closes 0) (.start .small) passing = 1 := by
  have hdone : (run (System.exec .small) (fun _ _ => True) (.start .small) passing).any
      (fun s => s.conns[0]?.any (fun c => c.reader = .done)) = true := by decide +kernel
  cases hrun : run (System.exec .small) (fun _ _ => True) (.start .small) passing with
  | none =>
    rw [hrun] at hdone
    cases hdone
  | some s =>
    rw [hrun, Option.any_some] at hdone
    obtain ⟨hlimit, -, -, -, hclosed⟩ := connection_limit hrun
    cases hc : s.conns[0]? with
    | none =>
      rw [hc] at hdone
      cases hdone
    | some c =>
      rw [hc, Option.any_some, decide_eq_true_eq] at hdone
      refine ⟨s, rfl, hlimit, ?_⟩
      rw [hclosed 0 c hc, if_pos (.inr hdone)]

end Limit

end HyperRuby.Dispatch
