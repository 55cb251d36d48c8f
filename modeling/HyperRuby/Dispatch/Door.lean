import HyperRuby.Dispatch.Interleaving
import Mathlib.Algebra.Order.BigOperators.Group.List

/-! # The connection counter

Accept loops take a place on the shared counter before they look at the limit, and give it
back when they refuse; a connection gives its place back when it closes. The counter is the
number of places held, admissions are within the limit, and what was opened is closed or
still open.
-/
namespace HyperRuby.Dispatch
open Framing Library

section Places

/-- A connection that has not run `close_stream`. -/
def Reader.admitted : Reader → ℕ
  | .closed | .done => 0
  | _ => 1

def Reader.unclosed : Reader → ℕ
  | .done => 0
  | _ => 1

/-- An accept loop that holds a place on the counter. -/
def Listener.held : Listener → ℕ
  | .counted _ _ | .refusing | .opening _ | .spawning _ => 1
  | _ => 0

/-- An accept loop whose connection is within the limit and not yet a task of its own. -/
def Listener.admitted (config : Config) : Listener → ℕ
  | .counted _ before => if before < config.maxConnections then 1 else 0
  | .opening _ | .spawning _ => 1
  | _ => 0

/-- An accept loop whose connection is counted as opened and not yet a task of its own. -/
def Listener.opened : Listener → ℕ
  | .spawning _ => 1
  | _ => 0

namespace System

/-- The admitted connections that have not run `close_stream`. -/
def admitted (config : Config) (s : System) : ℕ :=
  (s.listeners.map (Listener.admitted config)).sum + (s.conns.map (fun c => c.reader.admitted)).sum

def held (s : System) : ℕ :=
  (s.listeners.map Listener.held).sum + (s.conns.map (fun c => c.reader.admitted)).sum

/-- The connections counted as opened and not as closed. -/
def unclosed (s : System) : ℕ :=
  (s.listeners.map Listener.opened).sum + (s.conns.map (fun c => c.reader.unclosed)).sum

end System

/-- What the door counts: the shared counter, connections opened and connections closed. -/
def Shared.door (sh : Shared) : ℕ × ℕ × ℕ :=
  (sh.connections, sh.counters.connectionsOpened, sh.counters.connectionsClosed)

end Places

section Components
variable {config : Config} {sh sh' : Shared}

theorem DeliverStep.door {p : PendingMessage} {attempt : ℕ} {stage : Deliver}
    {progress : Progress} (h : DeliverStep config sh p attempt stage sh' progress) :
    sh'.door = sh.door := by
  cases h with
  | counted result => cases result <;> rfl
  | _ => rfl

theorem DeliveryStep.door {c c' : Conn} (h : DeliveryStep config sh c sh' c') :
    sh'.door = sh.door ∧ c'.reader = c.reader := by
  cases h with
  | delivered p attempt stage _ progress pc step =>
    obtain ⟨_, _, _, hresume, -⟩ := c.resume_frame p attempt progress
    exact ⟨step.door, by rw [hresume]⟩
  | _ => exact ⟨rfl, rfl⟩

theorem TaskStep.door {t t' : DatagramTask} (h : TaskStep config sh t sh' t') :
    sh'.door = sh.door := by
  cases h with
  | delivered _ _ _ _ step => exact step.door
  | _ => rfl

theorem ReceiverStep.door {r r' : Receiver} {spawned : Option DatagramTask}
    (h : ReceiverStep config sh r sh' r' spawned) : sh'.door = sh.door := by
  cases h <;> rfl

/-- What a step of a connection does at the door. -/
inductive DoorStep (sh : Shared) : Reader → Shared → Reader → Prop where
  | stays {r r' : Reader} {sh' : Shared} (door : sh'.door = sh.door) (going : r ≠ .closing)
      (before : r.admitted = 1) (after : r'.admitted = 1) : DoorStep sh r sh' r'
  | leaves : DoorStep sh .closing { sh with connections := sh.connections - 1 } .closed
  | counts : DoorStep sh .closed
      (sh.count (fun k => { k with connectionsClosed := k.connectionsClosed + 1 })) .done

theorem ReaderStep.door {c c' : Conn} (h : ReaderStep config sh c sh' c') :
    DoorStep sh c.reader sh' c'.reader := by
  cases h with
  | closing pc =>
    rw [pc]
    exact .leaves
  | closed pc =>
    rw [pc]
    exact .counts
  | decoded framer buffer pc =>
    refine .stays rfl (by simp [pc]) (by rw [pc]; rfl) ?_
    cases c.eof <;> rfl
  | rejected error framer buffer pc =>
    refine .stays ?_ (by simp [pc]) (by rw [pc]; rfl) ?_
    · cases error.reason <;> rfl
    · cases error.fatal <;> rfl
  | headed _ pc | proxied _ _ pc | badProxy pc | noProxy pc | panicked _ pc | framed _ _ _ _ pc
  | read _ pc | ended pc | stopped pc | acquired _ _ pc | numbered _ _ pc | gauged _ pc
  | unsent _ pc | sent _ pc | freed _ pc | abandoned _ pc | released _ pc | joined pc =>
    exact .stays rfl (by simp [pc]) (by rw [pc]; rfl) rfl

theorem Reader.unclosed_of_admitted {r : Reader} (h : r.admitted = 1) : r.unclosed = 1 := by
  cases r <;> first | rfl | cases h

/-- A connection gives back its place, and is counted as closed afterwards. -/
theorem DoorStep.moves {r r' : Reader} (h : DoorStep sh r sh' r')
    (hr : r.admitted ≤ sh.connections) :
    sh'.connections + r.admitted = sh.connections + r'.admitted ∧ r'.admitted ≤ r.admitted ∧
      sh'.counters.connectionsClosed + r'.unclosed = sh.counters.connectionsClosed + r.unclosed ∧
      sh'.counters.connectionsOpened = sh.counters.connectionsOpened := by
  cases h with
  | stays door going before after =>
    obtain ⟨hplaces, hopened, hclosed⟩ : _ ∧ _ ∧ _ := by
      simpa only [Shared.door, Prod.mk.injEq] using door
    have hbefore := Reader.unclosed_of_admitted before
    have hafter := Reader.unclosed_of_admitted after
    omega
  | leaves => exact ⟨Nat.sub_add_cancel hr, Nat.zero_le _, rfl, rfl⟩
  | counts => exact ⟨rfl, le_rfl, rfl, rfl⟩

theorem start_admitted (config : Config) (peer : Option String) :
    (Conn.start config peer).reader.admitted = 1 := by
  cases hp : config.proxyProtocol <;> simp [Conn.start, hp, Reader.admitted]

/-- An accept loop takes one place and hands it on or gives it back. -/
theorem ListenerStep.held {l l' : Listener} {spawned : Option Conn}
    (h : ListenerStep config sh l sh' l' spawned) (hl : l.held ≤ sh.connections) :
    sh'.connections + l.held =
      sh.connections + (l'.held + (spawned.toList.map (fun c => c.reader.admitted)).sum) := by
  cases h with
  | spawned peer => simp [start_admitted, Listener.held]
  | uncounted =>
    simp only [Listener.held] at hl
    simp [Listener.held]
    omega
  | _ => rfl

theorem ListenerStep.balance {l l' : Listener} {spawned : Option Conn}
    (h : ListenerStep config sh l sh' l' spawned) :
    sh'.counters.connectionsOpened + l.opened = sh.counters.connectionsOpened +
        (l'.opened + (spawned.toList.map (fun c => c.reader.unclosed)).sum) ∧
      sh'.counters.connectionsClosed = sh.counters.connectionsClosed := by
  cases h with
  | spawned peer =>
    simp [Reader.unclosed_of_admitted (start_admitted config peer), Listener.opened]
  | _ => exact ⟨rfl, rfl⟩

/-- Admission is decided by the counter as it was when the place was taken. -/
theorem ListenerStep.admitted {l l' : Listener} {spawned : Option Conn}
    (h : ListenerStep config sh l sh' l' spawned) :
    l'.admitted config + (spawned.toList.map (fun c => c.reader.admitted)).sum ≤
        l.admitted config +
          (if l = .accepting ∧ sh.connections < config.maxConnections then 1 else 0) := by
  cases h with
  | accepted peer => simp [Listener.admitted]
  | spawned peer => simp [Listener.admitted, start_admitted]
  | under peer before room => simp [Listener.admitted, room]
  | _ => simp [Listener.admitted]

end Components

section Books
variable {config : Config} {s t : System}

/-- The counter is the number of places held, admissions are within the limit, and what was
opened is closed or still open. -/
structure Doorkept (config : Config) (s : System) : Prop where
  places : s.shared.connections = s.held
  limit : s.admitted config ≤ config.maxConnections
  balance : s.shared.counters.connectionsOpened =
    s.shared.counters.connectionsClosed + s.unclosed

theorem Listener.admitted_le_held (config : Config) (l : Listener) :
    l.admitted config ≤ l.held := by
  cases l with
  | counted peer before =>
    simp only [Listener.admitted, Listener.held]
    split_ifs <;> omega
  | _ => simp [Listener.admitted, Listener.held]

theorem System.admitted_le_held (config : Config) (s : System) : s.admitted config ≤ s.held :=
  Nat.add_le_add_right
    (List.sum_le_sum (fun l _ => Listener.admitted_le_held config l)) _

theorem Doorkept.passes (h : Doorkept config s) (hdoor : t.shared.door = s.shared.door)
    (hlisteners : t.listeners = s.listeners)
    (hconns : t.conns.map Conn.reader = s.conns.map Conn.reader) : Doorkept config t := by
  obtain ⟨hplaces, hopened, hclosed⟩ : _ ∧ _ ∧ _ := by
    simpa only [Shared.door, Prod.mk.injEq] using hdoor
  have hmap : ∀ f : Reader → ℕ,
      t.conns.map (fun c => f c.reader) = s.conns.map (fun c => f c.reader) := by
    intro f
    have := congrArg (List.map f) hconns
    simpa only [List.map_map, Function.comp_def] using this
  constructor
  · rw [hplaces, h.places, System.held, System.held, hlisteners, hmap]
  · have := h.limit
    rwa [System.admitted, hlisteners, hmap]
  · rw [hopened, hclosed, h.balance, System.unclosed, System.unclosed, hlisteners, hmap]

theorem Doorkept.listener (h : Doorkept config s) {i : ℕ} {l l' : Listener} {sh : Shared}
    {spawned : Option Conn} (found : s.listeners[i]? = some l)
    (step : ListenerStep config s.shared l sh l' spawned) :
    Doorkept config { s with
      shared := sh, listeners := s.listeners.set i l', conns := s.conns ++ spawned.toList } := by
  obtain ⟨hplaces, hlimit, hbalance⟩ := h
  have hroom := System.admitted_le_held config s
  unfold System.held at hplaces hroom
  unfold System.admitted at hlimit hroom
  unfold System.unclosed at hbalance
  constructor
  · obtain ⟨rest, hold, hnew⟩ := tally_set Listener.held found l'
    have hstep := step.held (by omega)
    simp only [System.held, List.map_append, List.sum_append, hnew]
    omega
  · obtain ⟨rest, hold, hnew⟩ := tally_set (Listener.admitted config) found l'
    have hstep := step.admitted
    simp only [System.admitted, List.map_append, List.sum_append, hnew]
    split_ifs at hstep with hadmit
    · have := hadmit.2
      omega
    · omega
  · obtain ⟨rest, hold, hnew⟩ := tally_set Listener.opened found l'
    obtain ⟨hopened, hclosed⟩ := step.balance
    simp only [System.unclosed, List.map_append, List.sum_append, hnew, hclosed]
    omega

theorem Doorkept.reader (h : Doorkept config s) {i : ℕ} {c c' : Conn} {sh : Shared}
    (found : s.conns[i]? = some c) (step : ReaderStep config s.shared c sh c') :
    Doorkept config { s with shared := sh, conns := s.conns.set i c' } := by
  obtain ⟨hplaces, hlimit, hbalance⟩ := h
  obtain ⟨rest, hold, hnew⟩ := tally_set (fun c : Conn => c.reader.admitted) found c'
  obtain ⟨rest', hold', hnew'⟩ := tally_set (fun c : Conn => c.reader.unclosed) found c'
  unfold System.held at hplaces
  unfold System.admitted at hlimit
  unfold System.unclosed at hbalance
  obtain ⟨hmove, hfewer, hclosed, hopened⟩ := step.door.moves (by omega)
  constructor
  · simp only [System.held, hnew]
    omega
  · simp only [System.admitted, hnew]
    omega
  · simp only [System.unclosed, hnew']
    omega

theorem doorkept_start (config : Config) : Doorkept config (.start config) := by
  have hzero : ∀ f : Listener → ℕ, f .accepting = 0 →
      ((System.start config).listeners.map f).sum = 0 := by
    intro f hf
    simp [System.start, hf]
  constructor
  · simp only [System.held, hzero Listener.held rfl]
    rfl
  · simp only [System.admitted, hzero (Listener.admitted config) rfl]
    exact Nat.zero_le _
  · simp only [System.unclosed, hzero Listener.opened rfl]
    rfl

theorem doorkept {allowed : System → Action → Prop}
    (h : Reached (System.exec config) allowed (.start config) s) : Doorkept config s := by
  refine h.invariant (Doorkept config) (doorkept_start config) ?_
  intro s a t _ _ ih he
  cases exec_step he with
  | listener i _ l sh l' spawned found step => exact ih.listener found step
  | reader i _ c sh c' found step => exact ih.reader found step
  | delivery i c sh c' found step =>
    exact ih.passes step.door.1 rfl (map_set_of_eq found step.door.2)
  | receiver _ _ _ _ step => exact ih.passes step.door rfl rfl
  | task _ _ _ _ _ step => exact ih.passes step.door rfl rfl
  | worker | stopAccepting | wait | complete | timeout | swap | abandon | elsewhere =>
    exact ih.passes rfl rfl rfl

end Books

end HyperRuby.Dispatch
