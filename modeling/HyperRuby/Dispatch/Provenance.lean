import HyperRuby.Dispatch.Outstanding
import HyperRuby.Framing.Delivered

/-! # What the worker block is given

`SyslogMessage::message` takes the bytes of a stream message as text without
looking at them. A message is checked where it is framed or received, and is
the same from there to the worker: the flag, the transport and the bytes that
a worker sees are those of the check.
-/
namespace HyperRuby.Dispatch
open Framing Library

/-- A stream message was checked by the framer; a datagram did not fill the receive buffer. -/
def PendingMessage.Checked (config : Config) (p : PendingMessage) : Prop :=
  match p.transport with
  | .stream => p.utf8 = true ∧ Deliverable config.limits.maxLength p.message
  | .datagram => p.utf8 = false ∧ p.message.length < config.udpMaxDatagramBytes

/-- A string for the worker block: text, or bytes without an encoding. -/
inductive RubyString where
  | text (bytes : Bytes)
  | binary (bytes : Bytes)
  deriving DecidableEq, Repr

/-- `SyslogMessage::message`; the conversion to text is unchecked. -/
def SyslogMessage.toRuby (m : SyslogMessage) : RubyString :=
  if m.utf8 then .text m.bytes else .binary m.bytes

/-- A string that is text is valid UTF-8. -/
def RubyString.Valid : RubyString → Prop
  | .text bytes => fromUtf8 bytes = true
  | .binary _ => True

section Streams
variable {config : Config} {allowed : System → Action → Prop} {s : System}

/-- The messages of a connection as they come out of the framer and get their ids. -/
structure Conn.Checked (config : Config) (c : Conn) : Prop where
  framed : ∀ m ∈ c.framed, Deliverable config.limits.maxLength m
  numbered : ∀ p ∈ c.numbered, p.transport = .stream ∧ p.utf8 = true

theorem Conn.call_deliverable {c : Conn} {message buffer : Bytes} {framer : Framer}
    (h : c.call config = .ok (.ok (some message), framer, buffer)) :
    Deliverable config.limits.maxLength message :=
  Session.call_deliverable (s := ⟨c.framer, c.buffer, [], c.eof, [], .running⟩) h

theorem Conn.Checked.reader {sh sh' : Shared} {c c' : Conn} (hc : c.Checked config)
    (h : ReaderStep config sh c sh' c') : c'.Checked config := by
  rcases hc with ⟨hframed, hnumbered⟩
  cases h with
  | framed message framer buffer now pc call =>
    refine ⟨?_, hnumbered⟩
    intro m hm
    rcases List.mem_append.mp hm with hm | hm
    · exact hframed m hm
    · rw [List.mem_singleton.mp hm]
      exact Conn.call_deliverable call
  | numbered message now pc =>
    refine ⟨hframed, ?_⟩
    intro p hp
    rcases List.mem_append.mp hp with hp | hp
    · exact hnumbered p hp
    · rw [List.mem_singleton.mp hp]
      exact ⟨rfl, rfl⟩
  | _ => exact ⟨hframed, hnumbered⟩

theorem Conn.Checked.delivery {sh sh' : Shared} {c c' : Conn} (hc : c.Checked config)
    (h : DeliveryStep config sh c sh' c') : c'.Checked config := by
  cases h with
  | delivered p attempt stage _ progress =>
    rcases c.resume_frame p attempt progress with ⟨_, _, _, hresume, -⟩
    rw [hresume]
    exact ⟨hc.framed, hc.numbered⟩
  | _ => exact ⟨hc.framed, hc.numbered⟩

theorem conns_checked (h : Reached (System.exec config) allowed (.start config) s) :
    ∀ c ∈ s.conns, c.Checked config :=
  conns_invariant (fun _ c => c.Checked config)
    (fun _ peer => ⟨by simp [Conn.start], by simp [Conn.start]⟩) (fun _ _ _ _ hc => hc)
    (fun _ _ _ _ step hc => hc.reader step) (fun _ _ _ _ step hc => hc.delivery step) h

theorem Conn.Checked.pending {c : Conn} (hc : c.Checked config) (ho : c.InOrder)
    {p : PendingMessage} (hp : p ∈ c.numbered) : p.Checked config := by
  have hmem : p.message ∈ c.framed := by
    rw [ho.framed]
    exact List.mem_append_left _ (List.mem_map_of_mem hp)
  rcases hc.numbered p hp with ⟨htransport, hutf8⟩
  rw [PendingMessage.Checked, htransport]
  exact ⟨hutf8, hc.framed _ hmem⟩

theorem Conn.InOrder.live {c : Conn} (ho : c.InOrder) {p : PendingMessage} (hp : p ∈ c.live) :
    p ∈ c.numbered := by
  rw [ho.numbered]
  exact List.mem_append_right _ hp

end Streams

section Datagrams
variable {config : Config} {allowed : System → Action → Prop} {s : System}

/-- What the loop of `serve_datagrams` has in hand did not fill the buffer. -/
def Receiver.Checked (config : Config) : Receiver → Prop
  | .crediting message _ _ | .numbering message _ _ =>
    message.length < config.udpMaxDatagramBytes
  | .gauging p | .spawning p => p.transport = .datagram ∧ p.Checked config
  | _ => True

theorem receiver_checked {sh sh' : Shared} {r r' : Receiver} {input : Receiver.Input}
    {spawned : Option DatagramTask} (h : r.step config sh input = some (sh', r', spawned))
    (hr : r.Checked config) :
    r'.Checked config ∧
      ∀ t ∈ spawned.toList, t.pending.transport = .datagram ∧ t.pending.Checked config := by
  unfold Receiver.step at h
  split at h
  case h_1 message peer now =>
    split_ifs at h with hlong
    · cases h
      exact ⟨trivial, by simp⟩
    · cases h
      exact ⟨Nat.lt_of_not_le hlong, by simp⟩
  case h_2 =>
    split_ifs at h
    cases h
    exact ⟨trivial, by simp⟩
  case h_4 message peer now =>
    split_ifs at h
    · cases h
      exact ⟨hr, by simp⟩
    · cases h
      exact ⟨trivial, by simp⟩
  case h_6 message peer now =>
    cases h
    exact ⟨⟨rfl, rfl, hr⟩, by simp⟩
  case h_7 p =>
    cases h
    exact ⟨hr, by simp⟩
  case h_8 p =>
    cases h
    refine ⟨trivial, ?_⟩
    intro t ht
    obtain rfl : t = ⟨p, .delivering .pushing⟩ := by simpa using ht
    exact hr
  case h_3 | h_5 =>
    cases h
    exact ⟨trivial, by simp⟩
  case h_9 => cases h

theorem TaskStep.pending_eq {sh sh' : Shared} {t t' : DatagramTask}
    (h : TaskStep config sh t sh' t') : t'.pending = t.pending := by
  cases h with
  | delivered stage _ progress => rcases progress with _ | _ | _ | ⟨_ | _ | _⟩ <;> rfl
  | _ => rfl

structure System.Checked (config : Config) (s : System) : Prop where
  receiver : s.receiver.Checked config
  tasks : ∀ t ∈ s.tasks, t.pending.transport = .datagram ∧ t.pending.Checked config

theorem datagrams_checked (h : Reached (System.exec config) allowed (.start config) s) :
    s.Checked config := by
  refine h.invariant (System.Checked config) ?_ ?_
  · refine ⟨?_, by simp [System.start]⟩
    cases hd : config.datagramListener <;> simp [System.start, hd, Receiver.Checked]
  · intro s a t _ _ ih he
    cases exec_step he with
    | receiver input sh r spawned _ =>
      rcases Option.map_eq_some_iff.mp he with ⟨⟨_, r', spawned'⟩, hstep, hout⟩
      have hr : r' = r := congrArg System.receiver hout
      have htasks : s.tasks ++ spawned'.toList = s.tasks ++ spawned.toList :=
        congrArg System.tasks hout
      rcases receiver_checked hstep ih.receiver with ⟨hreceiver, hspawned⟩
      refine ⟨hr ▸ hreceiver, ?_⟩
      rw [← htasks]
      intro t ht
      rcases List.mem_append.mp ht with ht | ht
      · exact ih.tasks t ht
      · exact hspawned t ht
    | task i task sh task' found step =>
      refine ⟨ih.receiver, forall_mem_set ih.tasks ?_⟩
      rw [step.pending_eq]
      exact ih.tasks task (List.mem_of_getElem? found)
    | listener | reader | delivery | worker | stopAccepting | wait | complete | timeout | swap
    | abandon | elsewhere =>
      exact ⟨ih.receiver, ih.tasks⟩

end Datagrams

section Deliveries
variable {config : Config} {allowed : System → Action → Prop} {s : System}

theorem messageIds_lt (h : Reached (System.exec config) allowed (.start config) s) :
    ∀ i ∈ s.messageIds, i < s.shared.nextMessageId := by
  rcases (booked h).balanced with ⟨n, -, hbal⟩
  intro i hi
  apply hbal.fresh
  rw [drawn_account]
  exact hi

theorem Conn.waitsFor_mem {sh : Shared} {c : Conn} (hp : c.Paced sh) (ho : c.InOrder)
    {d : SyslogDelivery} (hd : d ∈ c.delivery.waitsFor) :
    ∃ p ∈ c.numbered, ∃ attempt, 1 ≤ attempt ∧ d.message = p.attempted attempt := by
  cases hdelivery : c.delivery with
  | delivering p attempt stage =>
    cases stage with
    | awaiting rx =>
      have hpace := hp.pace
      rw [hdelivery] at hpace hd
      rcases hpace with ⟨-, -, -, hlength, last, hlast, -⟩
      obtain rfl : d = ⟨p.attempted attempt, rx⟩ := Multiset.mem_singleton.mp hd
      refine ⟨p, ho.live (by simp [Conn.live, hdelivery, Delivery.current]), attempt, ?_, rfl⟩
      rw [← hlength]
      exact List.length_pos_of_mem (List.mem_of_getLast? hlast)
    | pushing | counting =>
      rw [hdelivery] at hd
      exact absurd hd (Multiset.notMem_zero d)
  | _ =>
    rw [hdelivery] at hd
    exact absurd hd (Multiset.notMem_zero d)

theorem DatagramTask.waitsFor_mem {t : DatagramTask} {d : SyslogDelivery} (hd : d ∈ t.waitsFor) :
    d.message = t.pending.attempted 1 := by
  unfold DatagramTask.waitsFor at hd
  split at hd
  case h_1 stage _ =>
    cases stage with
    | awaiting rx => rw [Multiset.mem_singleton.mp hd]
    | pushing | counting => exact absurd hd (Multiset.notMem_zero d)
  case h_2 => exact absurd hd (Multiset.notMem_zero d)

end Deliveries

/-- In every run, what a worker is given, or is queued for one, is a numbered attempt at a
message of the process. From a stream it is text that the framer has found to be UTF-8 and
within the frame limit, so that the unchecked conversion is sound; as a datagram it is bytes
that did not fill the receive buffer, at the first and only attempt. -/
theorem deliveries_checked (config : Config) (s : System) (h : s.Reachable config) :
    ∀ d ∈ s.outstanding,
      d.message.toRuby.Valid ∧ 1 ≤ d.message.attempt ∧
      d.message.messageId < s.shared.nextMessageId ∧
      match d.message.transport with
      | .stream => d.message.utf8 = true ∧ d.message.bytes.length ≤ config.limits.maxLength
      | .datagram => d.message.utf8 = false ∧
          d.message.bytes.length < config.udpMaxDatagramBytes ∧ d.message.attempt = 1 := by
  intro d hd
  have hawaited : d ∈ s.awaited := by
    rw [(run_matched h).held_eq] at hd
    exact Multiset.mem_of_mem_filter hd
  have hid : d.message.messageId < s.shared.nextMessageId :=
    messageIds_lt h _ (Multiset.mem_of_le (awaited_le h) (Multiset.mem_map_of_mem _ hawaited))
  rcases Multiset.mem_add.mp hawaited with hconn | htask
  · rcases mem_tally.mp hconn with ⟨c, hc, hwaits⟩
    rcases conns_paced h c hc with ⟨hpaced, horder⟩
    rcases Conn.waitsFor_mem hpaced horder hwaits with ⟨p, hp, attempt, hattempt, hmessage⟩
    have hstream := (conns_checked h c hc).numbered p hp
    have hchecked := (conns_checked h c hc).pending horder hp
    rw [PendingMessage.Checked, hstream.1] at hchecked
    rw [hmessage] at hid ⊢
    have htransport : (p.attempted attempt).transport = .stream := hstream.1
    rw [htransport]
    refine ⟨?_, hattempt, hid, hchecked.1, hchecked.2.short⟩
    rw [SyslogMessage.toRuby, PendingMessage.attempted, if_pos hchecked.1]
    exact hchecked.2.utf8
  · rcases mem_tally.mp htask with ⟨t, ht, hwaits⟩
    have hmessage := DatagramTask.waitsFor_mem hwaits
    rcases (datagrams_checked h).tasks t ht with ⟨htransport, hchecked⟩
    rw [PendingMessage.Checked, htransport] at hchecked
    rw [hmessage] at hid ⊢
    have hdatagram : (t.pending.attempted 1).transport = .datagram := htransport
    rw [hdatagram]
    refine ⟨?_, le_rfl, hid, hchecked.1, hchecked.2, rfl⟩
    rw [SyslogMessage.toRuby, PendingMessage.attempted, if_neg (by simp [hchecked.1])]
    trivial

/-- A stream message with a letter of two bytes is with the worker, and a datagram that is not
text in the queue. -/
theorem deliveries_checked_mixed :
    ∃ s : System, s.Reachable .mixed ∧
      s.outstanding.map (fun d => d.message.toRuby) = {.binary [255], .text [195, 169]} ∧
      ∀ d ∈ s.outstanding, d.message.toRuby.Valid := by
  have hrun : ∃ s : System, s.Reachable .mixed ∧
      s.outstanding.map (fun d => d.message.toRuby) = {.binary [255], .text [195, 169]} :=
    exists_reached
      (serving [195, 169, 10] 5 ++ [.delivery 0, .delivery 0] ++ datagram [255] ++
        [.worker .hire, .worker (.take 0)])
      (by decide +kernel)
  rcases hrun with ⟨s, hs, houtstanding⟩
  exact ⟨s, hs, houtstanding, fun d hd => (deliveries_checked .mixed s hs d hd).1⟩

end HyperRuby.Dispatch
