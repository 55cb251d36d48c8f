import HyperRuby.Dispatch.Credits

/-! # The backlog of one connection

The channel between a reader and its delivery task bounds what is buffered in
it. A message in the reader's hand and one in the delivery task's hand hold a
credit as well, so a stalled connection can have two more undelivered messages
than `max_pending_per_connection`, as far as the credits go.
-/
namespace HyperRuby.Dispatch
open Framing Library

def Reader.undelivered : Reader → ℕ
  | .numbering _ _ | .gauging _ | .sending _ | .unsent _ => 1
  | _ => 0

def Delivery.undelivered : Delivery → ℕ
  | .delivering _ _ _ | .checking _ _ | .sleeping _ _ | .abandoning _ => 1
  | _ => 0

/-- Framed messages of a connection that hold a credit and are neither accepted nor
abandoned. -/
def Conn.undelivered (c : Conn) : ℕ :=
  c.reader.undelivered + c.channel.length + c.delivery.undelivered

section Bounds
variable {config : Config} {allowed : System → Action → Prop} {s : System}

theorem Conn.undelivered_le_permits (c : Conn) : c.undelivered ≤ Account.permits c.account := by
  have hreader : c.reader.undelivered ≤ Account.permits c.reader.account := by
    cases c.reader <;> simp [Reader.account, Reader.undelivered, PendingMessage.tokens]
  have hdelivery : c.delivery.undelivered ≤ Account.permits c.delivery.account := by
    cases c.delivery <;> simp [Delivery.account, Delivery.undelivered, PendingMessage.tokens]
  simp only [Conn.account, Conn.undelivered, Account.permits_add, permits_channel, permits_numbers]
  omega

theorem undelivered_le_maxPending
    (h : Reached (System.exec config) allowed (.start config) s) :
    ∀ c ∈ s.conns, c.undelivered ≤ config.maxPending := by
  intro c hc
  rcases (booked h).balanced with ⟨n, -, hbal⟩
  rcases account_conn hc with ⟨rest, hrest⟩
  have hpermits := hbal.permits
  rw [hrest, Account.permits_add] at hpermits
  have hconn := c.undelivered_le_permits
  omega

theorem channel_le_capacity (h : Reached (System.exec config) allowed (.start config) s) :
    ∀ c ∈ s.conns, c.channel.length ≤ config.maxPendingPerConnection := by
  refine conns_invariant (fun _ c => c.channel.length ≤ config.maxPendingPerConnection)
    (by simp [Conn.start]) (fun _ _ _ _ hc => hc) ?_ ?_ h
  · intro sh c sh' c' step hc
    cases step with
    | sent p pc alive room => simpa using room
    | _ => exact hc
  · intro sh c sh' c' step hc
    cases step with
    | received p channel pc front | skipped p channel pc front =>
      rw [front, List.length_cons] at hc
      exact (Nat.le_succ _).trans hc
    | delivered p attempt stage _ progress =>
      rcases c.resume_frame p attempt progress with ⟨_, _, _, hresume, -⟩
      rw [hresume]
      exact hc
    | _ => exact hc

/-- What the channel does guarantee: two messages more than its capacity. -/
theorem undelivered_le_capacity (h : Reached (System.exec config) allowed (.start config) s) :
    ∀ c ∈ s.conns, c.undelivered ≤ config.maxPendingPerConnection + 2 := by
  intro c hc
  have hchannel := channel_le_capacity h c hc
  have hreader : c.reader.undelivered ≤ 1 := by cases c.reader <;> simp [Reader.undelivered]
  have hdelivery : c.delivery.undelivered ≤ 1 := by cases c.delivery <;> simp [Delivery.undelivered]
  simp only [Conn.undelivered]
  omega

def Listener.admits : Listener → Bool
  | .opening _ | .spawning _ => true
  | _ => false

theorem no_conns (hnone : config.maxConnections = 0 ∨ config.streamListeners = 0)
    (h : Reached (System.exec config) allowed (.start config) s) : s.conns = [] := by
  have hinv := h.invariant
    (fun s => s.conns = [] ∧ s.listeners.length = config.streamListeners ∧
      ∀ l ∈ s.listeners, l.admits = false)
    ⟨rfl, by simp [System.start], by simp [System.start, Listener.admits]⟩ ?_
  · exact hinv.1
  intro s a t _ _ ih he
  rcases ih with ⟨hconns, hlength, hadmits⟩
  cases exec_step he with
  | listener i input l sh l' spawned found step =>
    have hl := hadmits l (List.mem_of_getElem? found)
    have hroom : config.maxConnections = 0 := by
      apply hnone.resolve_right
      intro hzero
      rw [hzero, List.length_eq_zero_iff] at hlength
      simp [hlength] at found
    have hkept : spawned = none ∧ l'.admits = false := by
      cases step <;> simp_all [Listener.admits]
    exact ⟨by simp [hconns, hkept.1], by simpa using hlength, forall_mem_set hadmits hkept.2⟩
  | reader i input c sh c' found => simp [hconns] at found
  | delivery i c sh c' found => simp [hconns] at found
  | receiver | task | worker | stopAccepting | wait | complete | timeout | swap | abandon
  | elsewhere =>
    exact ⟨hconns, hlength, hadmits⟩

end Bounds

section Stall
variable {config : Config}

theorem reader_run {s : System} {c c' : Conn} {sh : Shared} {inputs : List Conn.Input}
    (h : s.Reachable config) (hc : s.conns = [c])
    (hrun : run (fun x : Shared × Conn => x.2.readerStep config x.1) (fun _ _ => True)
      (s.shared, c) inputs = some (sh, c')) :
    ∃ t : System, t.Reachable config ∧ t.conns = [c'] ∧ t.shared = sh := by
  induction inputs generalizing s c with
  | nil =>
    cases hrun
    exact ⟨s, h, hc, rfl⟩
  | cons input inputs ih =>
    rw [run, if_pos trivial] at hrun
    rcases Option.bind_eq_some_iff.mp hrun with ⟨⟨sh₁, c₁⟩, hstep, hrest⟩
    have hexec : System.exec config s (.reader 0 input) =
        some { s with shared := sh₁, conns := [c₁] } := by
      simp only [System.exec, hc, List.getElem?_cons_zero, Option.bind_some, hstep,
        Option.map_some, List.set_cons_zero]
    exact ih (.step h trivial hexec) rfl hrest

/-- The reader waits for bytes, nothing is in its hand, and `k` messages are in the channel. -/
structure Conn.Waiting (k : ℕ) (c : Conn) : Prop where
  reader : c.reader = .decoding
  framer : c.framer = .new
  buffer : c.buffer = []
  eof : c.eof = false
  channel : c.channel.length = k
  delivery : c.delivery = .receiving

theorem decode_newline (limits : Limits) :
    Framer.new.decode limits [newline] = .ok (.ok (some []), .new, []) := by
  simp [Framer.decode, Framer.decodeVia, Framer.checkedDecode, Framer.enter, Framer.new, digitLed,
    LinesCodec.decode, LinesCodec.decodeLoop, LinesCodec.new, position, Except.map, Except.mapError]
  rfl

theorem take_credit (sh : Shared) {c : Conn} {k : ℕ} (hc : c.Waiting k) (hfree : 0 < sh.credits) :
    run (fun x : Shared × Conn => x.2.readerStep config x.1) (fun _ _ => True) (sh, c)
        [.go 0, .read [newline], .go 0, .go 0] =
      some ({ sh with credits := sh.credits - 1 },
        { c with reader := .numbering [] 0, framed := c.framed ++ [[]] }) := by
  rcases c with ⟨reader, framer, buffer, eof, peer, channel, delivery⟩
  rcases hc with ⟨rfl, rfl, rfl, rfl, -, rfl⟩
  simp [run, Conn.readerStep, Conn.decodeStep, Conn.call, Framer.decode_nil, Conn.readStep,
    decode_newline, hfree]

theorem hand_over (sh : Shared) {c : Conn} {k : ℕ} (hc : c.Waiting k)
    (hroom : k < config.maxPendingPerConnection) :
    ∃ sh' c', run (fun x : Shared × Conn => x.2.readerStep config x.1) (fun _ _ => True)
        (sh, { c with reader := .numbering [] 0, framed := c.framed ++ [[]] })
        [.go 0, .go 0, .go 0] = some (sh', c') ∧
      sh'.credits = sh.credits ∧ c'.Waiting (k + 1) := by
  rcases c with ⟨reader, framer, buffer, eof, peer, channel, delivery⟩
  rcases hc with ⟨rfl, rfl, rfl, rfl, rfl, rfl⟩
  simp only [run, Conn.readerStep, if_true, Option.bind_some, reduceCtorEq, if_false, hroom]
  exact ⟨_, _, rfl, rfl, ⟨rfl, rfl, rfl, rfl, by simp, rfl⟩⟩

theorem waiting_zero (hroom : 0 < config.maxConnections) (hlistener : 0 < config.streamListeners) :
    ∃ (s : System) (c : Conn), s.Reachable config ∧ s.conns = [c] ∧ c.Waiting 0 ∧
      s.shared.credits = config.maxPending := by
  have hopen : ∃ s : System, run (System.exec config) (fun _ _ => True) (.start config)
      [.listener 0 (.accepted none), .listener 0 .go, .listener 0 .go, .listener 0 .go] = some s ∧
      s.conns = [.start config none] ∧ s.shared.credits = config.maxPending := by
    rcases Nat.exists_eq_succ_of_ne_zero hlistener.ne' with ⟨m, hm⟩
    simp [run, System.exec, System.start, hm, List.replicate_succ, Listener.step, Shared.start,
      hroom.ne', Shared.count]
  rcases hopen with ⟨s, hrun, hconns, hcredits⟩
  have hs : s.Reachable config := .of_run .start hrun
  cases hp : config.proxyProtocol with
  | false =>
    exact ⟨s, _, hs, hconns, ⟨by simp [Conn.start, hp], rfl, rfl, rfl, rfl, rfl⟩, hcredits⟩
  | true =>
    have hheader : run (fun x : Shared × Conn => x.2.readerStep config x.1) (fun _ _ => True)
        (s.shared, .start config none) [.proxied none []] =
        some (s.shared, { Conn.start config none with reader := .decoding }) := by
      simp [run, Conn.readerStep, Conn.proxyStep, Conn.start, hp]
    rcases reader_run hs hconns hheader with ⟨t, ht, htconns, htshared⟩
    exact ⟨t, _, ht, htconns, ⟨rfl, rfl, rfl, rfl, rfl, rfl⟩, by rw [htshared, hcredits]⟩

/-- As long as there are credits, the channel fills up. -/
theorem waiting {k : ℕ} (hroom : 0 < config.maxConnections)
    (hlistener : 0 < config.streamListeners) (hcredits : k ≤ config.maxPending)
    (hk : k ≤ config.maxPendingPerConnection) :
    ∃ (s : System) (c : Conn), s.Reachable config ∧ s.conns = [c] ∧ c.Waiting k ∧
      s.shared.credits + k = config.maxPending := by
  induction k with
  | zero => exact waiting_zero hroom hlistener
  | succ k ih =>
    rcases ih (by omega) (by omega) with ⟨s, c, hs, hconns, hc, hfree⟩
    rcases reader_run hs hconns (take_credit s.shared hc (by omega)) with
      ⟨t, ht, htconns, htshared⟩
    have hspace : k < config.maxPendingPerConnection := by omega
    rcases hand_over t.shared hc hspace with ⟨sh, c', hrun, hsh, hc'⟩
    rcases reader_run ht htconns hrun with ⟨u, hu, huconns, hushared⟩
    refine ⟨u, c', hu, huconns, hc', ?_⟩
    rw [hushared, hsh, htshared]
    simp only
    omega

end Stall

/-- The documented bound on one connection's undelivered messages holds in every run exactly
when there are no more credits than that, or no stream connection is ever let in. -/
theorem undelivered_le_iff (config : Config) :
    (∀ s : System, s.Reachable config →
      ∀ c ∈ s.conns, c.undelivered ≤ config.maxPendingPerConnection) ↔
    config.maxPending ≤ config.maxPendingPerConnection ∨ config.maxConnections = 0 ∨
      config.streamListeners = 0 := by
  constructor
  · intro hbound
    by_contra hnot
    simp only [not_or, not_le] at hnot
    rcases hnot with ⟨hpending, hroom, hlistener⟩
    rcases waiting (Nat.pos_of_ne_zero hroom) (Nat.pos_of_ne_zero hlistener) hpending.le le_rfl with
      ⟨s, c, hs, hconns, hc, hfree⟩
    rcases reader_run hs hconns (take_credit s.shared hc (by omega)) with
      ⟨t, ht, htconns, -⟩
    have hle := hbound t ht _ (by rw [htconns]; exact List.mem_singleton_self _)
    simp only [Conn.undelivered, Reader.undelivered, hc.channel, hc.delivery,
      Delivery.undelivered] at hle
    omega
  · rintro (hpending | hnone) s hs c hc
    · exact (undelivered_le_maxPending hs c hc).trans hpending
    · rw [no_conns hnone hs] at hc
      cases hc

/-- With room for one message in the channel, a second one is framed and takes a credit. -/
theorem stalled_connection_exceeds :
    ∃ s : System, s.Reachable .small ∧
      ∃ c ∈ s.conns, Config.small.maxPendingPerConnection < c.undelivered :=
  exists_reached (serving [120, 10, 121, 10] 7) (by decide +kernel)

end HyperRuby.Dispatch
