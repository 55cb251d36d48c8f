import Mathlib.Algebra.Order.BigOperators.Group.List
import HyperRuby.Dispatch.Accounts

/-! # Credits bound what is pending

The ledger is in order in every state of every run, so the gauge never counts
more than the live messages, and these never outnumber the credits.
-/
namespace HyperRuby.Dispatch
open Framing Library

/-- The drain has given up and swept the gauge. -/
def Drain.late : Drain → Bool
  | .swapped _ | .timedOut => true
  | _ => false

def Drain.carried : Drain → ℕ
  | .swapped n => n
  | _ => 0

/-- The books of the listeners are in order, and until a drain times out the gauge is exact. -/
structure System.Booked (config : Config) (s : System) : Prop where
  balanced : ∃ n ≤ s.swept.card,
    Balanced config.maxPending n s.drain.carried s.account s.shared.pool
  onTime : s.drain.late = false →
    s.swept = 0 ∧ s.shared.pool.gauge = (Account.onGauge s.account).card

section Booked
variable {config : Config} {s t : System} {a : Action}

theorem start_booked : (System.start config).Booked config := by
  have haccount : (System.start config).account = 0 := by
    cases hd : config.datagramListener <;>
      simp [System.account, System.start, Receiver.account, numbers, hd]
  refine ⟨⟨0, le_rfl, ?_⟩, fun _ => ⟨rfl, by rw [haccount]; rfl⟩⟩
  rw [haccount]
  exact ⟨by simp [Shared.pool, System.start, Shared.start], by rfl, by rfl, by simp, by simp⟩

theorem SystemStep.drain_eq (h : SystemStep config s a t) (hb : a.bulk = false) :
    t.drain.late = s.drain.late ∧ t.drain.carried = s.drain.carried ∧ t.swept = s.swept := by
  cases h with
  | wait idle =>
    rw [idle]
    exact ⟨rfl, rfl, rfl⟩
  | complete waiting | timeout waiting =>
    rw [waiting]
    exact ⟨rfl, rfl, rfl⟩
  | swap | abandon => cases hb
  | _ => exact ⟨rfl, rfl, rfl⟩

theorem SystemStep.booked (h : SystemStep config s a t) (hc : ∀ c ∈ s.conns, c.Coherent)
    (hs : s.Booked config) : t.Booked config := by
  rcases hs.balanced with ⟨n, hn, hbal⟩
  cases hb : a.bulk with
  | false =>
    rcases h.drain_eq hb with ⟨hlate, hcarried, hswept⟩
    have hmove := h.move hc hb
    refine ⟨⟨n, by rw [hswept]; exact hn, by rw [hcarried]; exact hmove.balanced hbal⟩, ?_⟩
    intro ht
    rcases hs.onTime (hlate ▸ ht) with ⟨hzero, hgauge⟩
    exact ⟨hswept.trans hzero, hmove.exact hgauge⟩
  | true =>
    cases h with
    | swap expired =>
      rcases hs.onTime (by rw [expired]; rfl) with ⟨hzero, hgauge⟩
      have hnone : n = 0 := by simpa [hzero] using hn
      rw [expired, hnone] at hbal
      exact ⟨⟨s.shared.counters.pending, hbal.gauge, hbal.sweep⟩, by simp [Drain.late]⟩
    | abandon total swapped =>
      rw [swapped] at hbal
      refine ⟨⟨n, hn, ?_⟩, by simp [Drain.late]⟩
      rw [pool_abandoned]
      exact hbal.carry
    | _ => cases hb

end Booked

theorem booked {config : Config} {allowed : System → Action → Prop} {s : System}
    (h : Reached (System.exec config) allowed (.start config) s) : s.Booked config :=
  h.invariant (fun s => s.Booked config) start_booked
    (fun _ _ _ hreached _ hs he => (exec_step he).booked (conns_coherent hreached) hs)

section Tokens
variable (p : PendingMessage) (channel : List PendingMessage) (ids : List ℕ)

@[simp] theorem permits_channel :
    Account.permits (channel.map PendingMessage.tokens).sum = channel.length := by
  induction channel with
  | nil => rfl
  | cons p channel ih =>
    simp [PendingMessage.tokens, ih]
    omega

@[simp] theorem anonymous_channel :
    Account.anonymous (channel.map PendingMessage.tokens).sum = 0 := by
  induction channel with
  | nil => rfl
  | cons p channel ih => simp [PendingMessage.tokens, ih]

@[simp] theorem onGauge_channel :
    Account.onGauge (channel.map PendingMessage.tokens).sum =
      (channel.map PendingMessage.messageId : List ℕ) := by
  induction channel with
  | nil => rfl
  | cons p channel ih => simp [PendingMessage.tokens, ih]

@[simp] theorem unsettled_channel :
    Account.unsettled (channel.map PendingMessage.tokens).sum =
      (channel.map PendingMessage.messageId : List ℕ) := by
  induction channel with
  | nil => rfl
  | cons p channel ih => simp [PendingMessage.tokens, ih]

theorem numbers_cons (i : ℕ) : numbers (i :: ids) = .number i ::ₘ numbers ids := rfl

@[simp] theorem permits_numbers : Account.permits (numbers ids) = 0 := by
  simp [Account.permits, numbers]

@[simp] theorem anonymous_numbers : Account.anonymous (numbers ids) = 0 := by
  simp [Account.anonymous, numbers]

@[simp] theorem onGauge_numbers : Account.onGauge (numbers ids) = 0 := by
  induction ids with
  | nil => rfl
  | cons i ids ih => simpa [numbers_cons] using ih

@[simp] theorem unsettled_numbers : Account.unsettled (numbers ids) = 0 := by
  induction ids with
  | nil => rfl
  | cons i ids ih => simpa [numbers_cons] using ih

end Tokens

section Credits

def Reader.hand : Reader → Option PendingMessage
  | .gauging p | .sending p | .unsent p => some p
  | _ => none

def Receiver.hand : Receiver → Option PendingMessage
  | .gauging p | .spawning p => some p
  | _ => none

def DatagramTask.live (t : DatagramTask) : List PendingMessage :=
  if t.stage = .finished then [] else [t.pending]

/-- The live messages of a connection, oldest first. -/
def Conn.live (c : Conn) : List PendingMessage :=
  c.delivery.current.toList ++ c.channel ++ c.reader.hand.toList

/-- Every `PendingMessage` of the process that has not been dropped. -/
def System.live (s : System) : List PendingMessage :=
  s.conns.flatMap Conn.live ++ s.tasks.flatMap DatagramTask.live ++ s.receiver.hand.toList

theorem Conn.gauge_le_live {c : Conn} (h : c.reader.unsuccessful = false) :
    (Account.onGauge c.account).card ≤ c.live.length := by
  have hreader : (Account.onGauge c.reader.account).card ≤ c.reader.hand.toList.length := by
    cases hr : c.reader <;> simp_all [Reader.account, Reader.hand, Reader.unsuccessful,
      PendingMessage.tokens]
  have hdelivery : (Account.onGauge c.delivery.account).card ≤
      c.delivery.current.toList.length := by
    cases c.delivery <;> simp [Delivery.account, Delivery.current, PendingMessage.tokens]
  simp only [Conn.account, Conn.live, Account.onGauge_add, onGauge_channel, onGauge_numbers,
    Multiset.card_add, Multiset.coe_card, List.length_map, List.length_append, Multiset.card_zero]
  omega

theorem Conn.live_le_permits (c : Conn) : c.live.length ≤ Account.permits c.account := by
  have hreader : c.reader.hand.toList.length ≤ Account.permits c.reader.account := by
    cases c.reader <;> simp [Reader.account, Reader.hand, PendingMessage.tokens]
  have hdelivery : c.delivery.current.toList.length ≤ Account.permits c.delivery.account := by
    cases c.delivery <;> simp [Delivery.account, Delivery.current, PendingMessage.tokens]
  simp only [Conn.account, Conn.live, Account.permits_add, permits_channel, permits_numbers,
    List.length_append]
  omega

theorem DatagramTask.gauge_le_live (t : DatagramTask) :
    (Account.onGauge t.account).card ≤ t.live.length := by
  cases hs : t.stage <;>
    simp [DatagramTask.account, DatagramTask.live, hs, PendingMessage.tokens]

theorem DatagramTask.live_le_permits (t : DatagramTask) :
    t.live.length ≤ Account.permits t.account := by
  cases hs : t.stage <;>
    simp [DatagramTask.account, DatagramTask.live, hs, PendingMessage.tokens]

theorem Receiver.gauge_le_live (r : Receiver) :
    (Account.onGauge r.account).card ≤ r.hand.toList.length := by
  cases r <;> simp [Receiver.account, Receiver.hand, PendingMessage.tokens]

theorem Receiver.live_le_permits (r : Receiver) :
    r.hand.toList.length ≤ Account.permits r.account := by
  cases r <;> simp [Receiver.account, Receiver.hand, PendingMessage.tokens]

theorem gauge_le_live {s : System} (h : ∀ c ∈ s.conns, c.Coherent) :
    (Account.onGauge s.account).card ≤ s.live.length := by
  have hcard : ∀ a b : Account, (Account.onGauge (a + b)).card =
      (Account.onGauge a).card + (Account.onGauge b).card := by simp
  have hconns := List.sum_le_sum (fun c hc => Conn.gauge_le_live (h c hc).handedOver)
  have htasks := List.sum_le_sum (fun t (_ : t ∈ s.tasks) => t.gauge_le_live)
  have hreceiver := s.receiver.gauge_le_live
  rw [← tally_measure (fun a => (Account.onGauge a).card) rfl hcard] at hconns htasks
  simp only [System.account, System.live, hcard, List.length_append, List.length_flatMap,
    onGauge_numbers, Multiset.card_zero]
  omega

theorem live_le_permits (s : System) : s.live.length ≤ Account.permits s.account := by
  have hconns := List.sum_le_sum (fun c (_ : c ∈ s.conns) => c.live_le_permits)
  have htasks := List.sum_le_sum (fun t (_ : t ∈ s.tasks) => t.live_le_permits)
  have hreceiver := s.receiver.live_le_permits
  rw [← tally_measure Account.permits rfl Account.permits_add] at hconns htasks
  simp only [System.account, System.live, Account.permits_add, List.length_append,
    List.length_flatMap]
  omega

end Credits

/-- In every state of every run the gauge counts at most the live messages, these are at most
`max_pending`, and no hand-over to a delivery task has failed, because a delivery task ends
only after its reader has dropped the sender. Runs end before `Server::stop` drops the runtime,
which drops the tasks that a drain has left behind wherever they stand. -/
theorem pending_le_credits (config : Config) (s : System) (h : s.Reachable config) :
    s.shared.counters.pending ≤ s.live.length ∧ s.live.length ≤ config.maxPending ∧
      ∀ c ∈ s.conns, (c.delivery = .finished → c.reader.senderDropped = true) ∧
        c.reader.unsuccessful = false := by
  rcases (booked h).balanced with ⟨n, -, hbal⟩
  have hcoherent := conns_coherent h
  refine ⟨hbal.gauge.trans (gauge_le_live hcoherent), ?_, ?_⟩
  · have hpermits := hbal.permits
    have hlive := live_le_permits s
    omega
  · intro c hc
    exact ⟨fun hfin => ((hcoherent c hc).finished hfin).1, (hcoherent c hc).handedOver⟩

/-- One stream listener for one connection, frames of at most four bytes, two credits and one
place between a reader and its delivery task. -/
def Config.small : Config :=
  ⟨⟨64, 4, by decide⟩, 2, 1, 1, 0, false, 10, 1, false, 5, by decide, by decide, by decide⟩

/-- A connection is accepted, reads `chunk`, and its reader takes some steps. -/
def serving (chunk : Bytes) (steps : ℕ) : List Action :=
  [.listener 0 (.accepted none), .listener 0 .go, .listener 0 .go, .listener 0 .go,
    .reader 0 (.go 0), .reader 0 (.read chunk)] ++ List.replicate steps (.reader 0 (.go 0))

theorem pending_le_credits_sent :
    ∃ s : System, s.Reachable .small ∧ s.shared.counters.pending = 1 ∧
      s.shared.counters.pending ≤ s.live.length ∧ s.live.length ≤ 2 := by
  have hrun : ∃ s : System, s.Reachable .small ∧ s.shared.counters.pending = 1 :=
    exists_reached (serving [120, 10] 5) (by decide +kernel)
  rcases hrun with ⟨s, hs, hp⟩
  have hbound := pending_le_credits .small s hs
  exact ⟨s, hs, hp, hbound.1, hbound.2.1⟩

end HyperRuby.Dispatch
