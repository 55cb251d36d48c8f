import HyperRuby.Dispatch.Provenance
import HyperRuby.Dispatch.Refinement
import HyperRuby.Dispatch.Door
import HyperRuby.Framing.Held

/-! # How many bytes the listeners hold

Credits bound the messages on their way to the workers, the connection limit
bounds the readers, and the framer bounds what a reader keeps while it waits
for more; before the first message the limit on a PROXY header does. Together
they bound the bytes in memory, whatever the peers send.
-/
namespace HyperRuby.Dispatch
open Framing Library

section Readers
variable {config : Config} {sh sh' : Shared} {c c' : Conn} {r : ℕ}

theorem Conn.call_length {reply : Reply} {framer : Framer} {left : Bytes}
    (h : c.call config = .ok (reply, framer, left)) : left.length ≤ c.buffer.length := by
  have hweight := (Session.call_progress
    (s := ⟨c.framer, c.buffer, [], c.eof, [], .running⟩) h).1
  simp only [LinesCodec.weight] at hweight
  split_ifs at hweight <;> omega

/-- What a reader that waits for bytes may keep, with reads of at most `r` bytes. -/
def keepLimit (config : Config) (r : ℕ) : ℕ := config.limits.maxLength + r + 20

/-- The buffer may hold the beginning of a PROXY header: the reader waits for the rest of it, or
has given up and not dropped the buffer. -/
def Reader.heading : Reader → Bool
  | .proxy | .closing | .closed | .done => true
  | _ => false

theorem Reader.unnumbered_of_heading {reader : Reader} (h : reader.heading = true) :
    reader.unnumbered = [] := by
  cases reader <;> first | rfl | cases h

/-- A buffer holds one more read than it may keep, or a header that is not complete. -/
structure Conn.Sized (config : Config) (r : ℕ) (c : Conn) : Prop where
  buffer : c.buffer.length ≤ keepLimit config r + r ∨
    c.reader.heading = true ∧ c.buffer.length < Proxy.maxProxyHeaderBytes
  reading : c.reader = .reading → c.buffer.length ≤ keepLimit config r

theorem Conn.Sized.framing (hs : c.Sized config r) (h : c.reader.heading = false) :
    c.buffer.length ≤ keepLimit config r + r :=
  hs.buffer.resolve_right (by simp [h])

theorem Conn.Refines.reading_le (hw : config.limits.wordSize = 64) {chunks : List Bytes}
    (hr : c.Refines config.limits chunks) (hreads : ∀ chunk ∈ chunks, chunk.length ≤ r)
    (pc : c.reader = .reading) : c.buffer.length ≤ keepLimit config r := by
  rcases hr [] (fun _ => rfl) with ⟨n, -, hat⟩
  rw [List.append_nil, pc] at hat
  rcases hat with ⟨hcall, heof, -, -, hrunning⟩
  exact ((Session.run_bounded hw hreads n).held hw hrunning heof hcall).size

theorem Conn.Sized.reader (hs : c.Sized config r) {input : Conn.Input}
    (h : c.readerStep config sh input = some (sh', c'))
    (hreads : ∀ chunk ∈ input.fed, chunk.length ≤ r)
    (hreading : c'.reader = .reading → c'.buffer.length ≤ keepLimit config r) :
    c'.Sized config r := by
  refine ⟨?_, hreading⟩
  cases readerStep_step h with
  | headed chunk pc some short => exact .inr ⟨rfl, Proxy.parse_incomplete_length short⟩
  | proxied source rest pc =>
    have hrest : rest.length ≤ r := hreads rest (by simp [fed_proxied pc h])
    exact .inl (hrest.trans (Nat.le_add_left _ _))
  | read chunk pc nonempty =>
    have hchunk : chunk.length ≤ r := hreads chunk (by simp [fed_reading pc h, nonempty])
    have hkept := hs.reading pc
    refine .inl ?_
    rw [List.length_append]
    omega
  | framed _ _ _ _ pc call | decoded _ _ pc call | rejected _ _ _ pc call =>
    exact .inl ((Conn.call_length call).trans (hs.framing (by rw [pc]; rfl)))
  | badProxy pc | noProxy pc | closing pc | closed pc =>
    -- the buffer is dropped with the task
    exact hs.buffer.imp_right fun hheading => ⟨rfl, hheading.2⟩
  | panicked _ pc | ended pc | stopped pc | acquired _ _ pc | numbered _ _ pc | gauged _ pc
  | unsent _ pc | sent _ pc | freed _ pc | abandoned _ pc | released _ pc | joined pc =>
    exact .inl (hs.framing (by rw [pc]; rfl))

theorem Conn.Sized.delivery (hs : c.Sized config r) (h : DeliveryStep config sh c sh' c') :
    c'.Sized config r := by
  cases h with
  | delivered p attempt stage _ progress =>
    rcases c.resume_frame p attempt progress with ⟨_, _, _, hresume, -⟩
    rw [hresume]
    exact ⟨hs.buffer, hs.reading⟩
  | _ => exact ⟨hs.buffer, hs.reading⟩

theorem Conn.Sized.start (peer : Option String) : (Conn.start config peer).Sized config r :=
  ⟨.inl (Nat.zero_le _), fun _ => Nat.zero_le _⟩

end Readers

def Action.fed : Action → List Bytes
  | .reader _ input => input.fed
  | _ => []

section Runs
variable {config : Config} {s : System} {actions : List Action} {r : ℕ}

theorem fed_subset {i : ℕ} {chunk : Bytes} (h : chunk ∈ fed i actions) :
    ∃ a ∈ actions, chunk ∈ a.fed := by
  rcases List.mem_flatMap.mp h with ⟨a, ha, hchunk⟩
  refine ⟨a, ha, ?_⟩
  cases a with
  | reader j input =>
    simp only at hchunk
    split_ifs at hchunk
    · exact hchunk
    · cases hchunk
  | _ => cases hchunk

theorem run_sized (hw : config.limits.wordSize = 64)
    (h : run (System.exec config) (fun _ _ => True) (.start config) actions = some s)
    (hreads : ∀ a ∈ actions, ∀ chunk ∈ a.fed, chunk.length ≤ r) :
    ∀ c ∈ s.conns, c.Sized config r := by
  refine run_history (fun actions s => (∀ a ∈ actions, ∀ chunk ∈ a.fed, chunk.length ≤ r) →
    ∀ c ∈ s.conns, c.Sized config r) (by simp [System.start]) ?_ h hreads
  intro actions t a u ht _ ih he hreads
  have hold := ih fun b hb => hreads b (List.mem_append_left _ hb)
  cases a with
  | reader j input =>
    have hu : run (System.exec config) (fun _ _ => True) (.start config)
        (actions ++ [.reader j input]) = some u := by
      rw [run_concat, ht]
      simpa using he
    rcases Option.bind_eq_some_iff.mp he with ⟨c, hfound, hrest⟩
    rcases Option.map_eq_some_iff.mp hrest with ⟨⟨sh, c'⟩, hstep, rfl⟩
    have hlt := (List.getElem?_eq_some_iff.mp hfound).1
    apply forall_mem_set hold
    apply (hold c (List.mem_of_getElem? hfound)).reader hstep
    · exact hreads (.reader j input) (by simp)
    · apply ((run_refines hu).conns j c' (List.getElem?_set_self hlt)).reading_le hw
      intro chunk hchunk
      rcases fed_subset hchunk with ⟨b, hb, hmem⟩
      exact hreads b hb chunk hmem
  | delivery j =>
    cases exec_step he with
    | delivery _ c sh c' found step =>
      exact forall_mem_set hold ((hold c (List.mem_of_getElem? found)).delivery step)
  | listener j input =>
    cases exec_step he with
    | listener _ _ _ _ _ spawned _ step =>
      intro c hc
      rcases List.mem_append.mp hc with hc | hnew
      · exact hold c hc
      · rcases step.fresh hnew with ⟨peer, rfl⟩
        exact .start peer
  | receiver | task | worker | drain | elsewhere => cases exec_step he <;> exact hold

/-- The bytes a connection holds apart from its live messages: the buffer, and a message that
waits for a credit or an id. -/
def Conn.held (c : Conn) : ℕ := c.buffer.length + c.reader.unnumbered.flatten.length

theorem Conn.held_le {c : Conn} (hs : c.Sized config r) (hc : c.Checked config) (ho : c.InOrder) :
    c.held ≤ max (2 * config.limits.maxLength + 2 * r + 20) (Proxy.maxProxyHeaderBytes + r) := by
  have hmessage : c.reader.unnumbered.flatten.length ≤ config.limits.maxLength := by
    have hframed : ∀ m ∈ c.reader.unnumbered, m.length ≤ config.limits.maxLength := by
      intro m hm
      refine (hc.framed m ?_).short
      rw [ho.framed]
      exact List.mem_append_right _ hm
    cases hr : c.reader with
    | acquiring message now | numbering message now =>
      rw [hr] at hframed
      simpa [Reader.unnumbered] using hframed
    | _ => exact Nat.zero_le _
  rcases hs.buffer with hbuffer | ⟨hheading, hshort⟩
  · refine le_max_of_le_left ?_
    unfold keepLimit at hbuffer
    unfold Conn.held
    omega
  · refine le_max_of_le_right ?_
    rw [Conn.held, Reader.unnumbered_of_heading hheading]
    exact (Nat.le_of_lt hshort).trans (Nat.le_add_right _ _)

theorem live_length_le (h : s.Reachable config) {p : PendingMessage} (hp : p ∈ s.live) :
    p.message.length ≤ max config.limits.maxLength (config.udpMaxDatagramBytes - 1) := by
  have hchecked : p.Checked config := by
    simp only [System.live, List.mem_append, List.mem_flatMap, Option.mem_toList] at hp
    rcases hp with (⟨c, hc, hlive⟩ | ⟨t, ht, hlive⟩) | hhand
    · have horder := (conns_paced h c hc).2
      exact (conns_checked h c hc).pending horder (horder.live hlive)
    · unfold DatagramTask.live at hlive
      split_ifs at hlive
      · cases hlive
      · rw [List.mem_singleton.mp hlive]
        exact ((datagrams_checked h).tasks t ht).2
    · have hreceiver := (datagrams_checked h).receiver
      cases hr : s.receiver with
      | gauging q | spawning q =>
        rw [hr] at hhand hreceiver
        cases hhand
        exact hreceiver.2
      | _ =>
        rw [hr] at hhand
        cases hhand
  unfold PendingMessage.Checked at hchecked
  split at hchecked
  · exact le_max_of_le_left hchecked.2.short
  · exact le_max_of_le_right (by omega)

end Runs

/-- With reads of at most `r` bytes, the bytes of all live messages and of the readers that have
not closed are bounded by the configured limits, in every run and whatever the peers send. A
header may have one read more than `maxProxyHeaderBytes` before it is parsed. -/
theorem memory_bounded (config : Config) (hw : config.limits.wordSize = 64) (r : ℕ)
    (actions : List Action) (s : System)
    (h : run (System.exec config) (fun _ _ => True) (.start config) actions = some s)
    (hreads : ∀ a ∈ actions, ∀ chunk ∈ a.fed, chunk.length ≤ r) :
    (s.live.map (fun p => p.message.length)).sum +
        ((s.conns.filter (fun c => c.reader.admitted = 1)).map Conn.held).sum ≤
      config.maxPending * max config.limits.maxLength (config.udpMaxDatagramBytes - 1) +
        config.maxConnections *
          max (2 * config.limits.maxLength + 2 * r + 20) (Proxy.maxProxyHeaderBytes + r) := by
  have hreached : s.Reachable config := Reached.of_run .start h
  apply Nat.add_le_add
  · apply tally_le_mul
    · rcases (booked hreached).balanced with ⟨n, -, hbal⟩
      have hpermits := hbal.permits
      have hlive := live_le_permits s
      omega
    · exact fun p hp => live_length_le hreached hp
  · apply tally_le_mul
    · have hlimit := (doorkept hreached).limit
      have hcount := length_filter_le_tally (fun c : Conn => c.reader.admitted) s.conns
      unfold System.admitted at hlimit
      omega
    · intro c hc
      have hmem := List.mem_of_mem_filter hc
      exact Conn.held_le (run_sized hw h hreads c hmem) (conns_checked hreached c hmem)
        (conns_paced hreached c hmem).2

/-- A message is with the delivery task and the beginning of the next one in the buffer. -/
theorem memory_bounded_busy :
    ∃ s : System,
      run (System.exec .small) (fun _ _ => True) (.start .small) (serving [120, 10, 121] 6) =
        some s ∧
      ((s.live.map (fun p => p.message.length)).sum = 1 ∧
        ((s.conns.filter (fun c => c.reader.admitted = 1)).map Conn.held).sum = 1) ∧
      (s.live.map (fun p => p.message.length)).sum +
        ((s.conns.filter (fun c => c.reader.admitted = 1)).map Conn.held).sum ≤
          2 * max 4 (10 - 1) + 1 * max (2 * 4 + 2 * 3 + 20) (1024 + 3) := by
  have hrun : ∃ s : System, run (System.exec .small) (fun _ _ => True) (.start .small)
      (serving [120, 10, 121] 6) = some s ∧ (s.live.map (fun p => p.message.length)).sum = 1 ∧
      ((s.conns.filter (fun c => c.reader.admitted = 1)).map Conn.held).sum = 1 :=
    exists_run _ (by decide +kernel)
  rcases hrun with ⟨s, hs, hbytes⟩
  exact ⟨s, hs, hbytes, memory_bounded .small rfl 3 _ s hs (by decide)⟩

/-- A reader holds the part of a header it has read. -/
example : (run (System.exec { Config.small with proxyProtocol := true }) (fun _ _ => True)
    (.start { Config.small with proxyProtocol := true })
    [.listener 0 (.accepted none), .listener 0 .go, .listener 0 .go, .listener 0 .go,
      .reader 0 (.header [0x0d, 0x0a]), .reader 0 (.header [0x0d, 0x0a, 0x00])]).map
      (fun s => s.conns.map Conn.held) = some [5] := by
  decide +kernel

end HyperRuby.Dispatch
