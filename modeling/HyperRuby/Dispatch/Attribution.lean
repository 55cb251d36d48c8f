import HyperRuby.Dispatch.Provenance
import HyperRuby.Proxy.Reading

/-! # Whose message it is

A worker is told a peer with every message. For a stream it is the peer that the connection was
accepted from or, behind a PROXY header, the source that the header names; for a datagram it is
the sender. Connections, their tasks and the datagram tasks run side by side, and no message
gets the peer of another one.
-/
namespace HyperRuby.Dispatch
open Framing Library

abbrev Did (config : Config) (actions : List Action) (s : System) (a : Action) : Prop :=
  Stepped (System.exec config) (fun _ _ => True) (.start config) actions s a

/-- The accept loop has a connection from this peer in hand. -/
def Listener.guest : Listener → Option (Option String)
  | .counted peer _ | .opening peer | .spawning peer => some peer
  | .accepting | .refusing | .refused | .stopped => none

def Accepted (config : Config) (actions : List Action) (i : ℕ) (peer : Option String) : Prop :=
  ∃ j first last, Did config actions first (.listener j (.accepted peer)) ∧
    Did config actions last (.listener j .go) ∧ last.listeners[j]? = some (.spawning peer) ∧
    last.conns.length = i

def Sent (config : Config) (actions : List Action) (message : Bytes) (peer : Option String)
    (now : ℕ) : Prop :=
  ∃ s, Did config actions s (.receiver (.datagram message peer now))

/-- Where the peer of a connection comes from. A connection whose header has not been read, or
could not be, has no messages. -/
inductive Conn.Named (config : Config) (actions : List Action) (i : ℕ) (c : Conn)
    (peer : Option String) : Prop where
  | direct (off : config.proxyProtocol = false) (started : c.reader ≠ .proxy)
      (same : c.peer = peer)
  | header (on : config.proxyProtocol = true) (started : c.reader ≠ .proxy)
      (source : Option String) (rest : Bytes) (read : .reader i (.proxied source rest) ∈ actions)
      (named : c.peer = source.or peer)
  | unread (on : config.proxyProtocol = true) (same : c.peer = peer) (silent : c.numbered = [])
      (reader : c.reader = .proxy ∨ c.reader = .closing ∨ c.reader = .closed ∨ c.reader = .done)

structure Conn.Attributed (config : Config) (actions : List Action) (i : ℕ) (c : Conn) :
    Prop where
  named : ∃ peer, Accepted config actions i peer ∧ c.Named config actions i peer
  messages : ∀ p ∈ c.numbered, p.peer = c.peer

/-- What the loop of `serve_datagrams` has in hand came in as a datagram. -/
def Receiver.Attributed (config : Config) (actions : List Action) : Receiver → Prop
  | .crediting message peer now | .numbering message peer now =>
    Sent config actions message peer now
  | .gauging p | .spawning p => Sent config actions p.message p.peer p.receivedAtNs
  | .receiving | .truncated | .uncredited | .stopped => True

structure System.Attributed (config : Config) (actions : List Action) (s : System) : Prop where
  guests : ∀ (j : ℕ) (l : Listener), s.listeners[j]? = some l → ∀ peer, l.guest = some peer →
    ∃ u, Did config actions u (.listener j (.accepted peer))
  conns : ∀ (i : ℕ) (c : Conn), s.conns[i]? = some c → c.Attributed config actions i
  receiver : s.receiver.Attributed config actions
  tasks : ∀ t ∈ s.tasks, Sent config actions t.pending.message t.pending.peer t.pending.receivedAtNs

section Reader
variable {config : Config} {sh sh' : Shared} {c c' : Conn} {actions : List Action} {i : ℕ}
  {peer : Option String} {input : Conn.Input}

theorem ReaderStep.started (h : ReaderStep config sh c sh' c') (hstarted : c.reader ≠ .proxy) :
    c'.reader ≠ .proxy := by
  cases h with
  | headed chunk pc => exact absurd pc hstarted
  | decoded | rejected =>
    dsimp only
    split_ifs <;> simp
  | _ => simp

/-- Behind the header a reader keeps the peer, and gives it to every message it numbers. -/
theorem ReaderStep.peer_eq (h : ReaderStep config sh c sh' c') (hstarted : c.reader ≠ .proxy) :
    c'.peer = c.peer ∧ ∀ p ∈ c'.numbered, p ∈ c.numbered ∨ p.peer = c.peer := by
  cases h with
  | headed _ pc | proxied _ _ pc | badProxy pc | noProxy pc => exact absurd pc hstarted
  | numbered message now pc =>
    refine ⟨rfl, fun p hp => ?_⟩
    rcases List.mem_append.mp hp with hp | hp
    · exact .inl hp
    · rw [List.mem_singleton.mp hp]
      exact .inr rfl
  | _ => exact ⟨rfl, fun p hp => .inl hp⟩

/-- A reader that is closing does nothing else. -/
theorem ReaderStep.closes (h : ReaderStep config sh c sh' c')
    (hclosing : c.reader = .closing ∨ c.reader = .closed ∨ c.reader = .done) :
    c'.numbered = c.numbered ∧ (c'.reader = .closed ∨ c'.reader = .done) := by
  cases h with
  | closing | closed => exact ⟨rfl, by simp⟩
  | _ => simp_all

end Reader

section Steps
variable {config : Config} {actions : List Action} {s t u : System} {a b : Action} {i : ℕ}
  {c c' : Conn} {sh sh' : Shared} {peer : Option String}
  (hrun : run (System.exec config) (fun _ _ => True) (.start config) actions = some s)
include hrun

theorem did_last : Did config (actions ++ [a]) s a := (stepped_concat hrun).mpr (.inr ⟨rfl, rfl⟩)

theorem did_later (h : Did config actions u b) : Did config (actions ++ [a]) u b :=
  (stepped_concat hrun).mpr (.inl h)

theorem Accepted.later (h : Accepted config actions i peer) :
    Accepted config (actions ++ [a]) i peer := by
  rcases h with ⟨j, first, last, hfirst, hlast, hspawning⟩
  exact ⟨j, first, last, did_later hrun hfirst, did_later hrun hlast, hspawning⟩

theorem Sent.later {message : Bytes} {now : ℕ} (h : Sent config actions message peer now) :
    Sent config (actions ++ [a]) message peer now := by
  rcases h with ⟨u, hu⟩
  exact ⟨u, did_later hrun hu⟩

omit hrun in
theorem Conn.Named.later (h : c.Named config actions i peer) :
    c.Named config (actions ++ [a]) i peer := by
  cases h with
  | direct off started same => exact .direct off started same
  | header on started source rest read named =>
    exact .header on started source rest (List.mem_append_left _ read) named
  | unread on same silent reader => exact .unread on same silent reader

theorem Conn.Attributed.later (h : c.Attributed config actions i) :
    c.Attributed config (actions ++ [a]) i := by
  rcases h with ⟨⟨peer, haccepted, hnamed⟩, hmessages⟩
  exact ⟨⟨peer, haccepted.later hrun, hnamed.later⟩, hmessages⟩

theorem Receiver.Attributed.later {r : Receiver} (h : r.Attributed config actions) :
    r.Attributed config (actions ++ [a]) := by
  cases r with
  | crediting | numbering | gauging | spawning => exact Sent.later hrun h
  | receiving | truncated | uncredited | stopped => trivial

omit hrun in
theorem Conn.Named.reader {input : Conn.Input} (h : c.Named config actions i peer)
    (hstep : c.readerStep config sh input = some (sh', c')) :
    c'.Named config (actions ++ [.reader i input]) i peer := by
  have hreader := readerStep_step hstep
  cases h with
  | direct off started same =>
    exact .direct off (hreader.started started) ((hreader.peer_eq started).1.trans same)
  | header on started source rest read named =>
    exact .header on (hreader.started started) source rest (List.mem_append_left _ read)
      ((hreader.peer_eq started).1.trans named)
  | unread on same silent reader =>
    rcases reader with pc | hclosing
    · -- a part of the header or all of it comes in, or the connection goes
      cases input with
      | header chunk =>
        simp only [Conn.readerStep, pc, Conn.proxyStep] at hstep
        split_ifs at hstep
        cases hstep
        exact .unread on same silent (.inl rfl)
      | proxied source rest =>
        simp only [Conn.readerStep, pc, Conn.proxyStep, Option.some.injEq, Prod.mk.injEq] at hstep
        rcases hstep with ⟨-, rfl⟩
        exact .header on (by simp) source rest (by simp) (by simp [same])
      | badProxy | noProxy =>
        simp only [Conn.readerStep, pc, Conn.proxyStep, Option.some.injEq, Prod.mk.injEq] at hstep
        rcases hstep with ⟨-, rfl⟩
        exact .unread on same silent (.inr (.inl rfl))
      | _ => simp [Conn.readerStep, pc, Conn.proxyStep] at hstep
    · have hstarted : c.reader ≠ .proxy := by
        rcases hclosing with pc | pc | pc <;> simp [pc]
      rcases hreader.closes hclosing with ⟨hnumbered, hclosed⟩
      exact .unread on ((hreader.peer_eq hstarted).1.trans same) (hnumbered.trans silent)
        (.inr (.inr hclosed))

theorem Conn.Attributed.reader {input : Conn.Input} (h : c.Attributed config actions i)
    (hstep : c.readerStep config sh input = some (sh', c')) :
    c'.Attributed config (actions ++ [.reader i input]) i := by
  rcases h with ⟨⟨peer, haccepted, hnamed⟩, hmessages⟩
  refine ⟨⟨peer, haccepted.later hrun, hnamed.reader hstep⟩, ?_⟩
  have hreader := readerStep_step hstep
  by_cases hstarted : c.reader = .proxy
  · -- nothing has a number before the header is read
    have hsilent : c'.numbered = [] := by
      cases hnamed with
      | direct _ started | header _ started => exact absurd hstarted started
      | unread _ _ silent =>
        cases hreader with
        | headed | proxied | badProxy | noProxy => exact silent
        | _ => simp_all
    simp [hsilent]
  · rcases hreader.peer_eq hstarted with ⟨hpeer, hnumbered⟩
    intro p hp
    rw [hpeer]
    rcases hnumbered p hp with hold | hnew
    · exact hmessages p hold
    · exact hnew

theorem Conn.Attributed.delivery (h : c.Attributed config actions i)
    (hstep : DeliveryStep config sh c sh' c') : c'.Attributed config (actions ++ [a]) i := by
  have hkept : c'.peer = c.peer ∧ c'.numbered = c.numbered ∧ c'.reader = c.reader := by
    cases hstep with
    | delivered p attempt stage _ progress =>
      rcases c.resume_frame p attempt progress with ⟨_, _, _, hresume, -⟩
      rw [hresume]
      exact ⟨rfl, rfl, rfl⟩
    | _ => exact ⟨rfl, rfl, rfl⟩
  rcases hkept with ⟨hpeer, hnumbered, hreader⟩
  rcases h with ⟨⟨peer, haccepted, hnamed⟩, hmessages⟩
  refine ⟨⟨peer, haccepted.later hrun, ?_⟩, by rwa [hnumbered, hpeer]⟩
  have hlater := hnamed.later (a := a)
  cases hlater with
  | direct off started same => exact .direct off (hreader ▸ started) (hpeer.trans same)
  | header on started source rest read named =>
    exact .header on (hreader ▸ started) source rest read (hpeer.trans named)
  | unread on same silent reader =>
    exact .unread on (hpeer.trans same) (hnumbered.trans silent) (hreader ▸ reader)

end Steps

section Inputs
variable {config : Config} {sh sh' : Shared} {actions : List Action}

/-- A peer in the hands of an accept loop was there before, or has just been accepted. -/
theorem listener_guest {l l' : Listener} {input : Listener.Input} {spawned : Option Conn}
    (h : l.step config sh input = some (sh', l', spawned)) {peer : Option String}
    (hguest : l'.guest = some peer) : l.guest = some peer ∨ input = .accepted peer := by
  unfold Listener.step at h
  split at h
  case h_1 =>
    cases h
    cases hguest
    exact .inr rfl
  case h_2 =>
    split_ifs at h
    cases h
    cases hguest
  case h_3 =>
    cases h
    split_ifs at hguest
    · cases hguest
    · exact .inl hguest
  case h_6 =>
    cases h
    exact .inl hguest
  case h_4 | h_5 | h_7 =>
    cases h
    cases hguest
  case h_8 => cases h

theorem listener_spawned {l l' : Listener} {input : Listener.Input} {c : Conn}
    (h : l.step config sh input = some (sh', l', some c)) :
    input = .go ∧ ∃ peer, l = .spawning peer ∧ c = .start config peer := by
  unfold Listener.step at h
  split at h
  case h_2 =>
    split_ifs at h
    cases h
  case h_7 peer =>
    cases h
    exact ⟨rfl, peer, rfl, rfl⟩
  all_goals cases h

/-- What the loop has in hand was there before, or has just come in; a task gets it as it is. -/
theorem receiver_attributed {r r' : Receiver} {input : Receiver.Input}
    {spawned : Option DatagramTask} (h : r.step config sh input = some (sh', r', spawned))
    (hlast : ∀ message peer now, input = .datagram message peer now →
      Sent config actions message peer now)
    (hr : r.Attributed config actions) :
    r'.Attributed config actions ∧ ∀ task ∈ spawned.toList,
      Sent config actions task.pending.message task.pending.peer task.pending.receivedAtNs := by
  unfold Receiver.step at h
  split at h
  case h_1 message peer now =>
    split_ifs at h
    · cases h
      exact ⟨trivial, by simp⟩
    · cases h
      exact ⟨hlast message peer now rfl, by simp⟩
  case h_2 =>
    split_ifs at h
    cases h
    exact ⟨trivial, by simp⟩
  case h_4 =>
    split_ifs at h
    · cases h
      exact ⟨hr, by simp⟩
    · cases h
      exact ⟨trivial, by simp⟩
  case h_6 | h_7 =>
    cases h
    exact ⟨hr, by simp⟩
  case h_8 p =>
    cases h
    refine ⟨trivial, fun task htask => ?_⟩
    obtain rfl : task = ⟨p, .delivering .pushing⟩ := by simpa using htask
    exact hr
  case h_3 | h_5 =>
    cases h
    exact ⟨trivial, by simp⟩
  case h_9 => cases h

theorem Conn.Named.start (i : ℕ) (peer : Option String) :
    (Conn.start config peer).Named config actions i peer := by
  cases hp : config.proxyProtocol with
  | true => exact .unread hp rfl rfl (.inl (by simp [Conn.start, hp]))
  | false => exact .direct hp (by simp [Conn.start, hp]) rfl

end Inputs

section Runs
variable {config : Config} {actions : List Action} {s t : System} {a : Action}
  (hrun : run (System.exec config) (fun _ _ => True) (.start config) actions = some s)
include hrun

/-- Steps of the workers, of the drain and of other servers change no peer. -/
theorem System.Attributed.quiet (h : s.Attributed config actions)
    (hlisteners : t.listeners = s.listeners) (hconns : t.conns = s.conns)
    (hreceiver : t.receiver = s.receiver) (htasks : t.tasks = s.tasks) :
    t.Attributed config (actions ++ [a]) where
  guests j l hl peer hguest := by
    rcases h.guests j l (hlisteners ▸ hl) peer hguest with ⟨u, hu⟩
    exact ⟨u, did_later hrun hu⟩
  conns i c hc := (h.conns i c (hconns ▸ hc)).later hrun
  receiver := by
    rw [hreceiver]
    exact h.receiver.later hrun
  tasks task htask := (h.tasks task (htasks ▸ htask)).later hrun

theorem System.Attributed.listener (h : s.Attributed config actions) {j : ℕ} {l l' : Listener}
    {input : Listener.Input} {sh : Shared} {spawned : Option Conn}
    (hl : s.listeners[j]? = some l)
    (hstep : l.step config s.shared input = some (sh, l', spawned)) :
    System.Attributed config (actions ++ [.listener j input])
      { s with
        shared := sh, listeners := s.listeners.set j l', conns := s.conns ++ spawned.toList } := by
  have hquiet : s.Attributed config (actions ++ [.listener j input]) := h.quiet hrun rfl rfl rfl rfl
  refine ⟨fun k m hm peer hguest => ?_, fun i c hc => ?_, hquiet.receiver, hquiet.tasks⟩
  · rw [List.getElem?_set] at hm
    split_ifs at hm with hkj
    · cases hm
      subst hkj
      rcases listener_guest hstep hguest with hold | rfl
      · exact hquiet.guests j l hl peer hold
      · exact ⟨s, did_last hrun⟩
    · exact hquiet.guests k m hm peer hguest
  · rcases Nat.lt_or_ge i s.conns.length with hlt | hge
    · rw [List.getElem?_append_left hlt] at hc
      exact hquiet.conns i c hc
    · -- the new connection is the next one
      rw [List.getElem?_append_right hge] at hc
      cases spawned with
      | none => simp at hc
      | some d =>
        obtain ⟨hi, rfl⟩ : i - s.conns.length = 0 ∧ d = c := by
          cases hk : i - s.conns.length with
          | zero =>
            rw [hk] at hc
            exact ⟨rfl, by simpa using hc⟩
          | succ k =>
            rw [hk] at hc
            simp at hc
        rcases listener_spawned hstep with ⟨rfl, peer, rfl, rfl⟩
        rcases hquiet.guests j _ hl peer rfl with ⟨first, hfirst⟩
        refine ⟨⟨peer, ⟨j, first, s, hfirst, did_last hrun, hl, by omega⟩, .start i peer⟩, ?_⟩
        simp [Conn.start]

theorem System.Attributed.step (h : s.Attributed config actions)
    (he : System.exec config s a = some t) : t.Attributed config (actions ++ [a]) := by
  have hquiet : s.Attributed config (actions ++ [a]) := h.quiet hrun rfl rfl rfl rfl
  cases a with
  | listener j input =>
    rcases Option.bind_eq_some_iff.mp he with ⟨l, hl, hrest⟩
    rcases Option.map_eq_some_iff.mp hrest with ⟨⟨sh, l', spawned⟩, hstep, rfl⟩
    exact h.listener hrun hl hstep
  | reader j input =>
    rcases Option.bind_eq_some_iff.mp he with ⟨c, hfound, hrest⟩
    rcases Option.map_eq_some_iff.mp hrest with ⟨⟨sh, c'⟩, hstep, rfl⟩
    refine ⟨hquiet.guests, fun i d hd => ?_, hquiet.receiver, hquiet.tasks⟩
    rw [List.getElem?_set] at hd
    split_ifs at hd with hij
    · cases hd
      subst hij
      exact (h.conns j c hfound).reader hrun hstep
    · exact hquiet.conns i d hd
  | delivery j =>
    rcases Option.bind_eq_some_iff.mp he with ⟨c, hfound, hrest⟩
    rcases Option.map_eq_some_iff.mp hrest with ⟨⟨sh, c'⟩, hstep, rfl⟩
    refine ⟨hquiet.guests, fun i d hd => ?_, hquiet.receiver, hquiet.tasks⟩
    rw [List.getElem?_set] at hd
    split_ifs at hd with hij
    · cases hd
      subst hij
      exact (h.conns j c hfound).delivery hrun (deliveryStep_step hstep)
    · exact hquiet.conns i d hd
  | receiver input =>
    rcases Option.map_eq_some_iff.mp he with ⟨⟨sh, r, spawned⟩, hstep, rfl⟩
    have hlast : ∀ message peer now, input = .datagram message peer now →
        Sent config (actions ++ [.receiver input]) message peer now := by
      rintro message peer now rfl
      exact ⟨s, did_last hrun⟩
    rcases receiver_attributed hstep hlast hquiet.receiver with ⟨hreceiver, hspawned⟩
    refine ⟨hquiet.guests, hquiet.conns, hreceiver, fun task htask => ?_⟩
    rcases List.mem_append.mp htask with hold | hnew
    · exact hquiet.tasks task hold
    · exact hspawned task hnew
  | task j =>
    rcases Option.bind_eq_some_iff.mp he with ⟨task, hfound, hrest⟩
    rcases Option.map_eq_some_iff.mp hrest with ⟨⟨sh, task'⟩, hstep, rfl⟩
    refine ⟨hquiet.guests, hquiet.conns, hquiet.receiver, forall_mem_set hquiet.tasks ?_⟩
    rw [(taskStep_step hstep).pending_eq]
    exact hquiet.tasks task (List.mem_of_getElem? hfound)
  | worker move =>
    rcases workerStep_step he with ⟨_, _, _, _, rfl, -⟩
    exact h.quiet hrun rfl rfl rfl rfl
  | drain move =>
    have hstep : SystemStep config s (.drain move) t := drainStep_step he
    cases hstep <;> exact h.quiet hrun rfl rfl rfl rfl
  | elsewhere =>
    cases he
    exact h.quiet hrun rfl rfl rfl rfl

omit hrun in
theorem run_peers
    (hrun : run (System.exec config) (fun _ _ => True) (.start config) actions = some s) :
    s.Attributed config actions := by
  apply run_history (fun actions s => s.Attributed config actions) _ _ hrun
  · refine ⟨fun j l hl peer hguest => ?_, by simp [System.start], ?_, by simp [System.start]⟩
    · obtain rfl := List.eq_of_mem_replicate (List.mem_of_getElem? hl)
      cases hguest
    · cases hd : config.datagramListener <;> simp [System.start, hd, Receiver.Attributed]
  · intro actions t a u ht _ ih he
    exact ih.step ht he

end Runs

section Headers
open Proxy

/-- What `read_proxy_header` takes off the reads is one header. -/
theorem readProxyHeader_header {last : ReadFailure} {buffer rest : Bytes}
    {reads unread : List Bytes} {source : Option IpAddr}
    (h : readProxyHeader last buffer reads = .ok (.ok (source, rest, unread))) :
    ∃ command family address,
      buffer ++ reads.flatten = header command family address ++ rest ++ unread.flatten ∧
      Carries command family address source := by
  induction reads generalizing buffer with
  | nil =>
    rcases parse_parsed buffer maxProxyHeaderBytes with ⟨r, hr, -⟩
    rcases r with error | _ | ⟨found, length⟩
    · rw [readProxyHeader_error last [] hr] at h
      cases h
    · rw [readProxyHeader_last last hr] at h
      cases h
    · rw [readProxyHeader_complete last [] hr] at h
      cases h
      rcases parse_complete_iff.mp hr with ⟨command, family, address, rest, rfl, -, rfl, -, -, hc⟩
      exact ⟨command, family, address, by simp, hc⟩
  | cons bytes reads ih =>
    rcases parse_parsed buffer maxProxyHeaderBytes with ⟨r, hr, -⟩
    rcases r with error | _ | ⟨found, length⟩
    · rw [readProxyHeader_error last _ hr] at h
      cases h
    · by_cases hbytes : bytes = []
      · rw [readProxyHeader.eq_def, hr, hbytes] at h
        cases h
      · rw [readProxyHeader_more last reads hbytes hr] at h
        rcases ih h with ⟨command, family, address, hsplit, hc⟩
        refine ⟨command, family, address, ?_, hc⟩
        rw [← hsplit, List.flatten_cons, List.append_assoc]
    · rw [readProxyHeader_complete last _ hr] at h
      cases h
      rcases parse_complete_iff.mp hr with ⟨command, family, address, rest, rfl, -, rfl, -, -, hc⟩
      exact ⟨command, family, address, by simp, hc⟩

/-- The headers of a run are what `read_proxy_header` makes of the first reads of each
connection; an address is passed on as text. -/
def Genuine (text : IpAddr → String) (reads : ℕ → List Bytes) (actions : List Action) : Prop :=
  ∀ i source rest, .reader i (.proxied source rest) ∈ actions →
    ∃ last address, readProxyHeader last [] (reads i) = .ok (.ok (address, rest, [])) ∧
      source = address.map text

end Headers

/-- In every run, what a worker is given, or is queued for one, bears the peer it came from. A
datagram came in with these bytes from this peer at this time. A stream message belongs to one
connection, and its peer is the one the connection was accepted from or, where a PROXY header is
expected, the source named by the header that the connection sent first. -/
theorem deliveries_attributed (config : Config) (text : Proxy.IpAddr → String)
    (reads : ℕ → List Bytes) (actions : List Action) (s : System)
    (hrun : run (System.exec config) (fun _ _ => True) (.start config) actions = some s)
    (hgenuine : Genuine text reads actions) :
    ∀ d ∈ s.outstanding,
      match d.message.transport with
      | .datagram =>
        Sent config actions d.message.bytes d.message.peer d.message.receivedAtNs
      | .stream => ∃ (i : ℕ) (c : Conn) (peer : Option String),
        s.conns[i]? = some c ∧ d ∈ c.delivery.waitsFor ∧ Accepted config actions i peer ∧
        (config.proxyProtocol = false ∧ d.message.peer = peer ∨
          config.proxyProtocol = true ∧ ∃ rest command family address source,
            .reader i (.proxied (source.map text) rest) ∈ actions ∧
            (reads i).flatten = Proxy.header command family address ++ rest ∧
            Proxy.Carries command family address source ∧
            d.message.peer = (source.map text).or peer) := by
  intro d hd
  have h : s.Reachable config := Reached.of_run .start hrun
  have hpeers := run_peers hrun
  have hawaited : d ∈ s.awaited := by
    rw [(run_matched h).held_eq] at hd
    exact Multiset.mem_of_mem_filter hd
  rcases Multiset.mem_add.mp hawaited with hconn | htask
  · rcases mem_tally.mp hconn with ⟨c, hc, hwaits⟩
    rcases List.getElem?_of_mem hc with ⟨i, hi⟩
    rcases conns_paced h c hc with ⟨hpaced, horder⟩
    rcases Conn.waitsFor_mem hpaced horder hwaits with ⟨p, hp, attempt, -, hmessage⟩
    rcases hpeers.conns i c hi with ⟨⟨peer, haccepted, hnamed⟩, hmessages⟩
    have hpeer : d.message.peer = c.peer := by
      rw [hmessage]
      exact hmessages p hp
    have htransport : d.message.transport = .stream := by
      rw [hmessage]
      exact ((conns_checked h c hc).numbered p hp).1
    rw [htransport]
    refine ⟨i, c, peer, hi, hwaits, haccepted, ?_⟩
    cases hnamed with
    | direct off _ same => exact .inl ⟨off, hpeer.trans same⟩
    | header on _ source rest read named =>
      rcases hgenuine i source rest read with ⟨last, address, hread, rfl⟩
      rcases readProxyHeader_header hread with ⟨command, family, block, hsplit, hcarries⟩
      refine .inr ⟨on, rest, command, family, block, address, read, ?_, hcarries,
        hpeer.trans named⟩
      simpa using hsplit
    | unread _ _ silent => simp [silent] at hp
  · rcases mem_tally.mp htask with ⟨task, ht, hwaits⟩
    have hmessage := DatagramTask.waitsFor_mem hwaits
    have htransport : d.message.transport = .datagram := by
      rw [hmessage]
      exact ((datagrams_checked h).tasks task ht).1
    rw [htransport, hmessage]
    exact hpeers.tasks task ht

def Config.proxied : Config := { Config.small with proxyProtocol := true }

/-- A connection over a Unix socket is named by its header, and its message is queued. -/
theorem deliveries_attributed_proxied :
    ∃ actions s, run (System.exec .proxied) (fun _ _ => True) (.start .proxied) actions = some s ∧
      ∃ d ∈ s.outstanding, d.message.peer = some "10.0.0.1" ∧
        ∃ (i : ℕ) (peer : Option String) (command family : UInt8) (address : Bytes)
          (source : Option Proxy.IpAddr),
          Accepted .proxied actions i peer ∧ Proxy.Carries command family address source ∧
          d.message.peer = (source.map (fun _ => "10.0.0.1")).or peer := by
  have hrun : ∃ s, run (System.exec .proxied) (fun _ _ => True) (.start .proxied)
      ([.listener 0 (.accepted none), .listener 0 .go, .listener 0 .go, .listener 0 .go,
        .reader 0 (.proxied (some "10.0.0.1") [120, 10])] ++
        List.replicate 5 (.reader 0 (.go 0)) ++ [.delivery 0, .delivery 0]) = some s ∧
      s.outstanding.map (fun d => (d.message.transport, d.message.peer)) =
        {(.stream, some "10.0.0.1")} :=
    exists_run _ (by decide +kernel)
  rcases hrun with ⟨s, hrun, houtstanding⟩
  have hmem : (Transport.stream, some "10.0.0.1") ∈
      s.outstanding.map (fun d => (d.message.transport, d.message.peer)) := by
    rw [houtstanding]
    exact Multiset.mem_singleton_self _
  rcases Multiset.mem_map.mp hmem with ⟨d, hd, hsame⟩
  obtain ⟨htransport, hpeer⟩ := Prod.mk.inj hsame
  have hheader : Proxy.readProxyHeader .eof []
      [Proxy.header 0x1 0x11 [10, 0, 0, 1, 0, 0, 0, 0, 0, 0, 0, 0] ++ [120, 10]] =
      .ok (.ok (some (.v4 #v[10, 0, 0, 1]), [120, 10], [])) := by
    decide +kernel
  have hgenuine : Genuine (fun _ => "10.0.0.1")
      (fun _ => [Proxy.header 0x1 0x11 [10, 0, 0, 1, 0, 0, 0, 0, 0, 0, 0, 0] ++ [120, 10]])
      ([.listener 0 (.accepted none), .listener 0 .go, .listener 0 .go, .listener 0 .go,
        .reader 0 (.proxied (some "10.0.0.1") [120, 10])] ++
        List.replicate 5 (.reader 0 (.go 0)) ++ [.delivery 0, .delivery 0]) := by
    intro i source rest hmem
    obtain ⟨-, rfl, rfl⟩ : i = 0 ∧ source = some "10.0.0.1" ∧ rest = [120, 10] := by
      simpa using hmem
    exact ⟨.eof, _, hheader, rfl⟩
  have hattributed := deliveries_attributed .proxied _ _ _ s hrun hgenuine d hd
  rw [htransport] at hattributed
  rcases hattributed with ⟨i, c, peer, -, -, haccepted, ⟨hoff, -⟩ | ⟨-, rest, command, family,
    address, source, -, -, hcarries, hsource⟩⟩
  · cases hoff
  · exact ⟨_, s, hrun, d, hd, hpeer, i, peer, command, family, address, source, haccepted,
      hcarries, hsource⟩

end HyperRuby.Dispatch
