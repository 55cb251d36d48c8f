import HyperRuby.Dispatch.Attempts
import HyperRuby.Dispatch.Credits

/-! # Stop and wait

A connection's delivery task works on one message at a time: it pushes attempt
after attempt, each only after the verdict on the one before, until a worker
accepts the message or the message is given up. What a connection has pushed is
a sequence of blocks, one for each of its messages in the order of framing.
-/
namespace HyperRuby.Dispatch
open Framing Library

/-- A message framed that has no id yet. -/
def Reader.unnumbered : Reader → List Bytes
  | .acquiring message _ | .numbering message _ => [message]
  | _ => []

/-- Messages get their ids in the order of framing and are worked on in that order. -/
structure Conn.InOrder (c : Conn) : Prop where
  numbered : c.numbered = c.past.map Prod.fst ++ c.live
  framed : c.framed = c.numbered.map PendingMessage.message ++ c.reader.unnumbered

namespace Conn.InOrder
variable {config : Config} {sh sh' : Shared} {c c' : Conn}

theorem start (peer : Option String) : (Conn.start config peer).InOrder := by
  cases hp : config.proxyProtocol <;>
    exact ⟨by simp [Conn.start, Conn.live, Delivery.current, Reader.hand, hp],
      by simp [Conn.start, Reader.unnumbered, hp]⟩

theorem reader (h : c.InOrder) (hc : c.Coherent) (step : ReaderStep config sh c sh' c') :
    c'.InOrder := by
  rcases h with ⟨hnumbered, hframed⟩
  have hhanded := hc.handedOver
  cases step with
  | badProxy pc | noProxy pc =>
    have hreceiving := (hc.proxy pc).1
    constructor <;> simp_all [Conn.live, Reader.hand, Reader.unnumbered, Delivery.current]
  | decoded | rejected =>
    constructor <;> split_ifs <;> simp_all [Conn.live, Reader.hand, Reader.unnumbered]
  | freed p pc => simp [pc, Reader.unsuccessful] at hhanded
  | _ => constructor <;> simp_all [Conn.live, Reader.hand, Reader.unnumbered]

theorem delivery (h : c.InOrder) (step : DeliveryStep config sh c sh' c') : c'.InOrder := by
  rcases h with ⟨hnumbered, hframed⟩
  cases step with
  | delivered p attempt stage _ progress pc =>
    rcases c.resume_frame p attempt progress with ⟨_, _, _, hresume, hcurrent⟩
    have hbefore : c.delivery.current = some p := by rw [pc]; rfl
    rw [hresume]
    constructor <;> simp_all [Conn.live]
  | _ => constructor <;> simp_all [Conn.live, Delivery.current]

end Conn.InOrder

section Reached
variable {config : Config} {allowed : System → Action → Prop} {s : System}

theorem conns_paced (h : Reached (System.exec config) allowed (.start config) s) :
    ∀ c ∈ s.conns, c.Paced s.shared ∧ c.InOrder := by
  have hall := conns_invariant (fun sh c => c.Coherent ∧ c.Paced sh ∧ c.InOrder) ?_ ?_ ?_ ?_ h
  · exact fun c hc => (hall c hc).2
  · intro sh peer
    exact ⟨.start peer, ⟨by simp [Conn.start], rfl, by simp [Conn.start, Conn.pushed, Answered],
      by simp [Conn.start, Conn.pushed, Answered]⟩, .start peer⟩
  · intro sh sh' c hl hc
    exact ⟨hc.1, hc.2.1.later hl, hc.2.2⟩
  · intro sh c sh' c' step hc
    exact ⟨hc.1.reader step, hc.2.1.reader hc.1 step, hc.2.2.reader hc.1 step⟩
  · intro sh c sh' c' step hc
    exact ⟨hc.1.delivery step, hc.2.1.delivery step, hc.2.2.delivery step⟩

end Reached

section Identity

/-- The ids drawn in the process: by connections, by datagrams and by other servers. -/
def System.messageIds (s : System) : List ℕ :=
  s.conns.flatMap (fun c => c.numbered.map PendingMessage.messageId) ++
    s.tasks.map (fun t => t.pending.messageId) ++
    s.receiver.hand.toList.map PendingMessage.messageId ++ s.foreign

theorem drawn_channel (channel : List PendingMessage) :
    Account.drawn (channel.map PendingMessage.tokens).sum = 0 := by
  induction channel with
  | nil => rfl
  | cons p channel ih => simp [PendingMessage.tokens, ih]

theorem drawn_numbers (ids : List ℕ) : Account.drawn (numbers ids) = ids := by
  induction ids with
  | nil => rfl
  | cons i ids ih => simp [numbers_cons, ih]

theorem Conn.drawn_account (c : Conn) :
    Account.drawn c.account = (c.numbered.map PendingMessage.messageId : List ℕ) := by
  have hreader : Account.drawn c.reader.account = 0 := by
    cases c.reader <;> simp [Reader.account, PendingMessage.tokens]
  have hdelivery : Account.drawn c.delivery.account = 0 := by
    cases c.delivery <;> simp [Delivery.account, PendingMessage.tokens]
  simp [Conn.account, hreader, hdelivery, drawn_channel, drawn_numbers]

theorem drawn_account (s : System) : Account.drawn s.account = s.messageIds := by
  have htask : ∀ t : DatagramTask, Account.drawn t.account = {t.pending.messageId} := by
    intro t
    cases hs : t.stage <;> simp [DatagramTask.account, hs, PendingMessage.tokens]
  have hreceiver : Account.drawn s.receiver.account =
      (s.receiver.hand.toList.map PendingMessage.messageId : List ℕ) := by
    cases s.receiver <;> simp [Receiver.account, Receiver.hand, PendingMessage.tokens]
  have htasks : ∀ tasks : List DatagramTask,
      (tasks.map (fun t => Account.drawn t.account)).sum =
        (tasks.map (fun t => t.pending.messageId) : List ℕ) := by
    intro tasks
    induction tasks with
    | nil => rfl
    | cons t tasks ih =>
      rw [List.map_cons, List.sum_cons, htask, ih]
      rfl
  simp [System.account, System.messageIds, drawn_numbers, hreceiver,
    tally_measure Account.drawn rfl Account.drawn_add, Conn.drawn_account, htasks,
    ← Multiset.coe_add, ← Multiset.coe_bind, Multiset.bind, Multiset.join, add_assoc]

theorem messageIds_nodup {config : Config} {allowed : System → Action → Prop} {s : System}
    (h : Reached (System.exec config) allowed (.start config) s) : s.messageIds.Nodup := by
  rcases (booked h).balanced with ⟨n, -, hbal⟩
  rw [← Multiset.coe_nodup, ← drawn_account]
  exact hbal.distinct

theorem numbered_nodup {s : System} (h : s.messageIds.Nodup) {c : Conn} (hc : c ∈ s.conns) :
    (c.numbered.map PendingMessage.messageId).Nodup := by
  simp only [System.messageIds, List.append_assoc] at h
  exact (List.nodup_flatMap.mp (List.Nodup.of_append_left h)).1 c hc

end Identity

section Blocks

theorem pairwise_of_dropLast {P : SyslogDelivery → Prop} {block : List SyslogDelivery}
    (h : ∀ d ∈ block.dropLast, P d) : block.Pairwise (fun d _ => P d) := by
  induction block with
  | nil => exact .nil
  | cons d block ih =>
    cases block with
    | nil => exact List.pairwise_singleton _ _
    | cons e rest =>
      rw [List.dropLast_cons_of_ne_nil (List.cons_ne_nil e rest)] at h
      exact List.pairwise_cons.mpr ⟨fun _ _ => h d (by simp),
        ih (fun f hf => h f (List.mem_cons_of_mem d hf))⟩

theorem Attempts.messageId {p : PendingMessage} {block : List SyslogDelivery}
    (h : Attempts p block) {d : SyslogDelivery} (hd : d ∈ block) :
    d.message.messageId = p.messageId := by
  have hmem : d.message ∈ block.map SyslogDelivery.message := List.mem_map_of_mem hd
  rw [h] at hmem
  rcases List.mem_map.mp hmem with ⟨k, -, hk⟩
  rw [← hk]
  rfl

variable {sh : Shared} {c : Conn}

theorem Delivery.Pace.current {gone : Bool} {block : List SyslogDelivery} {delivery : Delivery}
    (h : delivery.Pace sh gone block) :
    (delivery.current = none ∧ block = []) ∨
      ∃ p, delivery.current = some p ∧ Attempts p block ∧ Held sh block.dropLast := by
  cases delivery with
  | receiving | finished => exact .inl ⟨rfl, h⟩
  | delivering p attempt stage =>
    cases stage with
    | pushing => exact .inr ⟨p, rfl, h.2.1, h.2.2.1.dropLast⟩
    | awaiting | counting => exact .inr ⟨p, rfl, h.2.1, h.2.2.1⟩
  | checking p attempt | sleeping p attempt => exact .inr ⟨p, rfl, h.2.1, h.2.2.1.dropLast⟩
  | abandoning p | releasing p | dropping p => exact .inr ⟨p, rfl, h.1, h.2.1⟩

theorem Conn.Paced.blocks (h : c.Paced sh) :
    ∀ b ∈ c.blocks, Attempts b.1 b.2 ∧ Held sh b.2.dropLast := by
  intro b hb
  rcases List.mem_append.mp hb with hpast | hcurrent
  · exact ⟨(h.past b hpast).1, (h.past b hpast).2.1⟩
  · rcases h.pace.current with ⟨hnone, -⟩ | ⟨p, hp, hblock⟩
    · simp [hnone] at hcurrent
    · obtain rfl : b = (p, c.block) := by simpa [hp] using hcurrent
      exact hblock

theorem Conn.Paced.pushed_eq (h : c.Paced sh) : c.pushed = c.blocks.flatMap Prod.snd := by
  rcases h.pace.current with ⟨hnone, hempty⟩ | ⟨p, hp, -⟩
  · simp [Conn.pushed, Conn.blocks, hnone, hempty]
  · simp [Conn.pushed, Conn.blocks, hp]

/-- A delivery that was accepted is the last one of its message. -/
theorem Conn.Paced.accepted_last (h : c.Paced sh)
    (hids : (c.blocks.map (fun b => b.1.messageId)).Nodup) :
    c.pushed.Pairwise (fun d e => sh.verdict d = some .accepted →
      d.message.messageId ≠ e.message.messageId) := by
  rw [h.pushed_eq, List.pairwise_flatMap]
  refine ⟨?_, ?_⟩
  · intro b hb
    refine (pairwise_of_dropLast (h.blocks b hb).2).imp ?_
    rintro d e (hr | hf) haccepted
    · simp [hr] at haccepted
    · simp [hf] at haccepted
  · refine (List.pairwise_map.mp hids).imp_of_mem ?_
    intro a b ha hb hne d hd e he _
    rwa [(h.blocks a ha).1.messageId hd, (h.blocks b hb).1.messageId he]

theorem Conn.InOrder.blocks (h : c.InOrder) : c.blocks.map Prod.fst <+: c.numbered := by
  refine ⟨c.channel ++ c.reader.hand.toList, ?_⟩
  rw [h.numbered, Conn.blocks, Conn.live]
  cases c.delivery.current <;> simp

end Blocks

/-- In every run, each connection pushes its messages in the order of framing, in blocks of
attempts counted from one, each attempt after the verdict on the one before and only because
that one was refused or failed; what was accepted is not pushed again, no two messages of the
process share an id, and without shutdown and with workers there, no message is skipped. -/
theorem deliveries_stop_and_wait (config : Config) (s : System) (h : s.Reachable config) :
    s.messageIds.Nodup ∧ ∀ c ∈ s.conns,
      c.pushed = c.blocks.flatMap Prod.snd ∧
      c.blocks.map Prod.fst <+: c.numbered ∧
      c.numbered.map PendingMessage.message <+: c.framed ∧
      (∀ b ∈ c.blocks, Attempts b.1 b.2 ∧ Held s.shared b.2.dropLast) ∧
      Answered s.shared c.pushed.dropLast ∧
      c.pushed.Pairwise (fun d e => s.shared.verdict d = some .accepted →
        d.message.messageId ≠ e.message.messageId) ∧
      (s.shared.cancelled = false → c.workersGone = false →
        ∀ b ∈ c.past, Ends s.shared b.2 .accepted) := by
  have hids := messageIds_nodup h
  refine ⟨hids, ?_⟩
  intro c hc
  rcases conns_paced h c hc with ⟨hpaced, horder⟩
  have hnodup : (c.blocks.map (fun b => b.1.messageId)).Nodup := by
    have hsub := (horder.blocks.map PendingMessage.messageId).sublist
    rw [List.map_map] at hsub
    exact (numbered_nodup hids hc).sublist hsub
  refine ⟨hpaced.pushed_eq, horder.blocks, ⟨_, horder.framed.symm⟩, hpaced.blocks,
    hpaced.answered, hpaced.accepted_last hnodup, ?_⟩
  intro hrunning hgone b hb
  rcases (hpaced.past b hb).2.2 with hcancelled | htrue | haccepted
  · simp [hrunning] at hcancelled
  · simp [hgone] at htrue
  · exact haccepted

/-- A message is refused once and then accepted before the next one is pushed. -/
theorem deliveries_stop_and_wait_refused :
    ∃ s : System, s.Reachable .small ∧ (∃ c ∈ s.conns, c.pushed.length = 3 ∧ c.past.length = 1) ∧
      ∀ c ∈ s.conns, Answered s.shared c.pushed.dropLast := by
  have hrun : ∃ s : System, s.Reachable .small ∧
      ∃ c ∈ s.conns, c.pushed.length = 3 ∧ c.past.length = 1 :=
    exists_reached
      (serving [120, 10, 121, 10] 5 ++
        [.delivery 0, .delivery 0, .worker .hire, .worker (.take 0), .worker (.answer 0 .refused),
          .delivery 0, .delivery 0, .delivery 0, .delivery 0, .delivery 0, .worker (.take 0),
          .worker (.answer 0 .accepted), .delivery 0, .delivery 0, .delivery 0, .delivery 0] ++
        List.replicate 5 (.reader 0 (.go 0)) ++ [.delivery 0, .delivery 0])
      (by decide +kernel)
  rcases hrun with ⟨s, hs, hpushed⟩
  exact ⟨s, hs, hpushed, fun c hc => ((deliveries_stop_and_wait .small s hs).2 c hc).2.2.2.2.1⟩

end HyperRuby.Dispatch
