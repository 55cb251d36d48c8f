import HyperRuby.Dispatch.StopAndWait

/-! # Connections refine the read loop

The reader of a connection takes the steps of a session of the read loop, with
waits for credits and for the delivery task in between. So what a connection
has framed, whatever the rest of the process does, is what the read loop finds
in the chunks it has read, and the workers see these messages in that order.
A connection that ends with its stream has had all of them accepted.
-/
namespace HyperRuby.Dispatch
open Framing Library

def Conn.Input.fed : Conn.Input → List Bytes
  | .read chunk => [chunk]
  | .proxied _ rest => [rest]
  | _ => []

/-- What the readers of a run took in for a connection, in order. Behind a PROXY header the
first chunk is what the header left over. -/
def fed (i : ℕ) (actions : List Action) : List Bytes :=
  actions.flatMap (fun a =>
    match a with
    | .reader j input => if j = i then input.fed else []
    | _ => [])

/-- The session is where the reader stands: about to make the same decode call, or, while the
reader waits for bytes, about to make the call that the reader has just made. A reader that has
left its loop at the end of the stream has a session that has stopped. -/
def Conn.At (limits : Limits) (c : Conn) (more : List Bytes) (session : Session) : Prop :=
  session.messages = c.framed ∧
  match c.reader with
  | .proxy => session = .start more ∧ c.framer = .new ∧ c.eof = false
  | .reading =>
    session.call limits = .ok (.ok none, c.framer, c.buffer) ∧ session.eof = false ∧
      c.eof = false ∧ session.unread = more ∧ session.status = .running
  | .joining | .closing | .closed | .done => c.eof = true → session.status ≠ .running
  | .panicked => True
  | _ =>
    session.framer = c.framer ∧ session.buffer = c.buffer ∧ session.eof = c.eof ∧
      session.unread = more ∧ session.status = .running

/-- The chunks lead a session to where the reader stands, whatever comes after them. -/
def Conn.Refines (limits : Limits) (chunks : List Bytes) (c : Conn) : Prop :=
  ∀ more, (c.eof = true → more = []) →
    ∃ n, c.At limits more ((Session.step limits)^[n] (.start (chunks ++ more)))

section Steps
variable {config : Config} {sh sh' : Shared} {c c' : Conn} {more chunks : List Bytes}
  {session : Session} {input : Conn.Input}

/-- A reader step is matched by `k` steps of the session after reading `extra` more chunks. -/
theorem Conn.Refines.match_steps (hr : c.Refines config.limits chunks) (extra : List Bytes) (k : ℕ)
    (heof : ∀ more, (c'.eof = true → more = []) → c.eof = true → extra ++ more = [])
    (hat : ∀ more session, (c'.eof = true → more = []) →
      c.At config.limits (extra ++ more) session →
      c'.At config.limits more ((Session.step config.limits)^[k] session)) :
    c'.Refines config.limits (chunks ++ extra) := by
  intro more hmore
  rcases hr (extra ++ more) (heof more hmore) with ⟨n, hn⟩
  refine ⟨k + n, ?_⟩
  rw [Function.iterate_add_apply, List.append_assoc]
  exact hat more _ hmore hn

/-- Steps that only wait or hand over leave the session where it is. -/
theorem Conn.Refines.stay (hr : c.Refines config.limits chunks) (heof : c'.eof = c.eof)
    (hat : ∀ more session, c.At config.limits more session → c'.At config.limits more session) :
    c'.Refines config.limits (chunks ++ []) :=
  hr.match_steps [] 0 (fun _ hmore hc => hmore (heof.trans hc))
    (fun more session _ => hat more session)

theorem Conn.At.call (pc : c.reader = .decoding) (h : c.At config.limits more session) :
    session.call config.limits = c.call config ∧ session.status = .running := by
  rw [Conn.At, pc] at h
  rcases h with ⟨-, hframer, hbuffer, heof, -, hrunning⟩
  exact ⟨by rw [Session.call, Conn.call, hframer, hbuffer, heof], hrunning⟩

theorem Conn.Refines.open (hr : c.Refines config.limits chunks)
    (pc : c.reader = .reading ∨ c.reader = .proxy) : c.eof = false := by
  rcases hr [] (fun _ => rfl) with ⟨n, hn⟩
  rcases pc with pc | pc
  · rw [Conn.At, pc] at hn
    exact hn.2.2.2.1
  · rw [Conn.At, pc] at hn
    exact hn.2.2.2

theorem fed_eq_nil (h : c.readerStep config sh input = some (sh', c'))
    (hreading : c.reader ≠ .reading) (hproxy : c.reader ≠ .proxy) : input.fed = [] := by
  cases input with
  | read chunk | proxied source rest =>
    unfold Conn.readerStep at h
    split at h <;> simp_all
  | _ => rfl

theorem fed_proxied (pc : c.reader = .proxy) (h : c.readerStep config sh input = some (sh', c')) :
    input.fed = if c'.reader = .decoding then [c'.buffer] else [] := by
  cases input with
  | header chunk =>
    simp only [Conn.readerStep, pc, Conn.proxyStep] at h
    split_ifs at h
    cases h
    simp [Conn.Input.fed]
  | proxied source rest | badProxy | noProxy =>
    simp only [Conn.readerStep, pc, Conn.proxyStep, Option.some.injEq, Prod.mk.injEq] at h
    rcases h with ⟨-, rfl⟩
    simp [Conn.Input.fed]
  | _ => simp [Conn.readerStep, pc, Conn.proxyStep] at h

theorem fed_reading (pc : c.reader = .reading)
    (h : c.readerStep config sh input = some (sh', c')) :
    input.fed = if c'.buffer = c.buffer then [] else [c'.buffer.drop c.buffer.length] := by
  cases input with
  | read chunk =>
    simp only [Conn.readerStep, pc, Conn.readStep] at h
    split_ifs at h with hne
    cases h
    simp [Conn.Input.fed, hne]
  | eof | failed =>
    simp only [Conn.readerStep, pc, Conn.readStep, Option.some.injEq, Prod.mk.injEq] at h
    rcases h with ⟨-, rfl⟩
    simp [Conn.Input.fed]
  | idle | cancelled =>
    simp only [Conn.readerStep, pc, Conn.readStep] at h
    split_ifs at h
    cases h
    simp [Conn.Input.fed]
  | _ => simp [Conn.readerStep, pc, Conn.readStep] at h

/-- The session reads what the header left over as its first chunk. -/
theorem Conn.Refines.proxied (hr : c.Refines config.limits chunks) (pc : c.reader = .proxy)
    (source : Option String) (rest : Bytes) :
    Conn.Refines config.limits (chunks ++ [rest])
      { c with buffer := rest, peer := source.or c.peer, reader := .decoding } := by
  refine hr.match_steps [rest] 1 (by simp [hr.open (.inr pc)]) ?_
  intro more session _ hat
  rw [Conn.At, pc] at hat
  rcases hat with ⟨hframed, rfl, hframer, heof⟩
  have hstep : (Session.start ([rest] ++ more)).step config.limits =
      { Session.start more with buffer := rest } := by
    rw [Session.step_running rfl, Session.call, Session.start, if_neg (by simp),
      Framer.decode_nil]
    rfl
  rw [Function.iterate_one, hstep]
  exact ⟨hframed, hframer.symm, rfl, heof.symm, rfl, rfl⟩

theorem Conn.Refines.framed (hr : c.Refines config.limits chunks) (pc : c.reader = .decoding)
    {message buffer : Bytes} {framer : Framer}
    (call : c.call config = .ok (.ok (some message), framer, buffer)) (now : ℕ) :
    Conn.Refines config.limits (chunks ++ [])
      { c with
        framer := framer, buffer := buffer, framed := c.framed ++ [message]
        reader := .acquiring message now } := by
  refine hr.match_steps [] 1 (fun _ hmore => hmore) ?_
  intro more session _ hat
  rcases hat.call pc with ⟨hcall, hrunning⟩
  rw [Conn.At, pc] at hat
  rcases hat with ⟨hframed, -, -, heof, hunread, -⟩
  rw [Function.iterate_one, Session.step_running hrunning, hcall, call]
  refine ⟨?_, rfl, rfl, heof, hunread, hrunning⟩
  rw [Session.messages, Session.handle, List.filterMap_append, ← hframed]
  rfl

theorem Conn.Refines.decoded (hr : c.Refines config.limits chunks) (pc : c.reader = .decoding)
    {buffer : Bytes} {framer : Framer} (call : c.call config = .ok (.ok none, framer, buffer)) :
    Conn.Refines config.limits (chunks ++ [])
      { c with
        framer := framer, buffer := buffer, reader := if c.eof then .joining else .reading } := by
  by_cases heof : c.eof = true
  · -- the end of the stream: the session stops with this call
    refine hr.match_steps [] 1 (fun _ hmore => hmore) ?_
    intro more session _ hat
    rcases hat.call pc with ⟨hcall, hrunning⟩
    rw [Conn.At, pc] at hat
    rcases hat with ⟨hframed, -, -, hsession, -, -⟩
    rw [Function.iterate_one, Session.step_running hrunning, hcall, call, Session.handle,
      Session.read_eof (s := { session with framer := framer, buffer := buffer })
        (hsession.trans heof), Conn.At, if_pos heof]
    exact ⟨hframed, fun _ => by simp⟩
  · refine hr.stay rfl ?_
    intro more session hat
    rcases hat.call pc with ⟨hcall, hrunning⟩
    rw [Conn.At, pc] at hat
    rcases hat with ⟨hframed, -, -, hsession, hunread, -⟩
    have hgoing : c.eof = false := Bool.eq_false_iff.mpr heof
    rw [Conn.At, if_neg heof]
    exact ⟨hframed, hcall.trans call, hsession.trans hgoing, hgoing, hunread, hrunning⟩

theorem Conn.Refines.rejected (hr : c.Refines config.limits chunks) (pc : c.reader = .decoding)
    {error : FrameError} {buffer : Bytes} {framer : Framer}
    (call : c.call config = .ok (.error error, framer, buffer)) :
    Conn.Refines config.limits (chunks ++ [])
      { c with
        framer := framer, buffer := buffer
        reader := if error.fatal then .joining else .decoding } := by
  refine hr.match_steps [] 1 (fun _ hmore => hmore) ?_
  intro more session _ hat
  rcases hat.call pc with ⟨hcall, hrunning⟩
  rw [Conn.At, pc] at hat
  rcases hat with ⟨hframed, -, -, heof, hunread, -⟩
  rw [Function.iterate_one, Session.step_running hrunning, hcall, call]
  have hmessages : (session.handle (.ok (.error error, framer, buffer))).messages = c.framed := by
    rw [Session.messages, Session.handle, List.filterMap_append, ← hframed]
    exact List.append_nil _
  cases hfatal : error.fatal with
  | true => exact ⟨hmessages, fun _ => by simp [Session.handle, hfatal]⟩
  | false => exact ⟨hmessages, rfl, rfl, heof, hunread, by simp [Session.handle, hfatal]⟩

theorem Conn.Refines.read (hr : c.Refines config.limits chunks) (pc : c.reader = .reading)
    (chunk : Bytes) :
    Conn.Refines config.limits (chunks ++ [chunk])
      { c with buffer := c.buffer ++ chunk, reader := .decoding } := by
  have hopen := hr.open (.inl pc)
  refine hr.match_steps [chunk] 1 (by simp [hopen]) ?_
  intro more session _ hat
  rw [Conn.At, pc] at hat
  rcases hat with ⟨hframed, hcall, heof, -, hunread, hrunning⟩
  rw [Function.iterate_one, Session.step_running hrunning, hcall, Session.handle,
    Session.read_chunk (s := { session with framer := c.framer, buffer := c.buffer })
      heof hunread]
  exact ⟨hframed, rfl, rfl, heof.trans hopen.symm, rfl, hrunning⟩

theorem Conn.Refines.ended (hr : c.Refines config.limits chunks) (pc : c.reader = .reading) :
    Conn.Refines config.limits (chunks ++ []) { c with eof := true, reader := .decoding } := by
  refine hr.match_steps [] 1 (by simp [hr.open (.inl pc)]) ?_
  intro more session hmore hat
  rw [Conn.At, pc] at hat
  rcases hat with ⟨hframed, hcall, heof, -, hunread, hrunning⟩
  have hlast : session.unread = [] := hunread.trans (hmore rfl)
  rw [Function.iterate_one, Session.step_running hrunning, hcall, Session.handle,
    Session.read_last (s := { session with framer := c.framer, buffer := c.buffer }) heof hlast]
  exact ⟨hframed, rfl, rfl, rfl, hunread, hrunning⟩

theorem Conn.Refines.reader (hr : c.Refines config.limits chunks) (hc : c.Coherent)
    (h : c.readerStep config sh input = some (sh', c')) :
    c'.Refines config.limits (chunks ++ input.fed) := by
  cases readerStep_step h with
  | headed chunk pc =>
    rw [fed_proxied pc h]
    refine hr.stay rfl (fun _ _ hat => ?_)
    rw [Conn.At, pc] at hat
    exact hat
  | proxied source rest pc =>
    rw [fed_proxied pc h]
    exact hr.proxied pc source rest
  | badProxy pc | noProxy pc =>
    have hopen := hr.open (.inr pc)
    rw [fed_proxied pc h]
    exact hr.stay rfl (fun _ _ hat => ⟨hat.1, by simp [hopen]⟩)
  | framed message framer buffer now pc call =>
    rw [fed_eq_nil h (by simp [pc]) (by simp [pc])]
    exact hr.framed pc call now
  | decoded framer buffer pc call =>
    rw [fed_eq_nil h (by simp [pc]) (by simp [pc])]
    exact hr.decoded pc call
  | rejected error framer buffer pc call =>
    rw [fed_eq_nil h (by simp [pc]) (by simp [pc])]
    exact hr.rejected pc call
  | read chunk pc nonempty =>
    have hfed : input.fed = [chunk] := by simp [fed_reading pc h, nonempty]
    rw [hfed]
    exact hr.read pc chunk
  | ended pc =>
    rw [fed_reading pc h, if_pos rfl]
    exact hr.ended pc
  | stopped pc =>
    have hopen := hr.open (.inl pc)
    rw [fed_reading pc h, if_pos rfl]
    exact hr.stay rfl (fun _ _ hat => ⟨hat.1, by simp [hopen]⟩)
  | panicked _ pc =>
    rw [fed_eq_nil h (by simp [pc]) (by simp [pc])]
    exact hr.stay rfl (fun _ _ hat => ⟨hat.1, trivial⟩)
  | released p pc =>
    have hhanded := hc.handedOver
    rw [pc] at hhanded
    cases hhanded
  | joined pc | closing pc | closed pc | acquired _ _ pc | numbered _ _ pc | gauged _ pc
  | unsent _ pc | sent _ pc | freed _ pc | abandoned _ pc =>
    rw [fed_eq_nil h (by simp [pc]) (by simp [pc])]
    refine hr.stay rfl ?_
    intro more session hat
    rw [Conn.At, pc] at hat
    exact hat

theorem Conn.Refines.delivery (hr : c.Refines config.limits chunks)
    (h : DeliveryStep config sh c sh' c') : c'.Refines config.limits chunks := by
  cases h with
  | delivered p attempt stage _ progress =>
    rcases c.resume_frame p attempt progress with ⟨_, _, _, hresume, -⟩
    rw [hresume]
    exact hr
  | _ => exact hr

theorem Conn.Refines.start (peer : Option String) :
    (Conn.start config peer).Refines config.limits [] := by
  refine fun more _ => ⟨0, ?_⟩
  cases hp : config.proxyProtocol <;>
    simp [Conn.At, Conn.start, hp, Session.start, Session.messages]

end Steps

section Runs
variable {config : Config} {s t : System} {actions : List Action}

/-- The connections of a system after the actions that led to it. -/
structure System.Refines (config : Config) (actions : List Action) (s : System) : Prop where
  unborn : ∀ i, s.conns.length ≤ i → fed i actions = []
  conns : ∀ (i : ℕ) (c : Conn), s.conns[i]? = some c → c.Refines config.limits (fed i actions)

theorem fed_concat (i : ℕ) (actions : List Action) (a : Action) :
    fed i (actions ++ [a]) = fed i actions ++ fed i [a] := by
  simp [fed]

/-- One connection moves, and only it may take something in. -/
theorem System.Refines.conn (h : s.Refines config actions) {a : Action} {j : ℕ} {c c' : Conn}
    (hfound : s.conns[j]? = some c) (hothers : ∀ i, j ≠ i → fed i [a] = [])
    (hmove : c'.Refines config.limits (fed j actions ++ fed j [a]))
    (hconns : t.conns = s.conns.set j c') : t.Refines config (actions ++ [a]) where
  unborn i hi := by
    have hlt := (List.getElem?_eq_some_iff.mp hfound).1
    rw [hconns, List.length_set] at hi
    rw [fed_concat, h.unborn i hi, hothers i (by omega)]
    rfl
  conns i d hd := by
    rw [hconns, List.getElem?_set] at hd
    rw [fed_concat]
    split_ifs at hd with hij
    · cases hd
      subst hij
      exact hmove
    · rw [hothers i hij, List.append_nil]
      exact h.conns i d hd

theorem System.Refines.spawned (h : s.Refines config actions) {a : Action} {fresh : List Conn}
    (ha : ∀ i, fed i [a] = []) (hfresh : ∀ c ∈ fresh, ∃ peer, c = .start config peer)
    (hconns : t.conns = s.conns ++ fresh) : t.Refines config (actions ++ [a]) where
  unborn i hi := by
    rw [hconns, List.length_append] at hi
    rw [fed_concat, ha, List.append_nil]
    exact h.unborn i (by omega)
  conns i d hd := by
    rw [hconns] at hd
    rw [fed_concat, ha, List.append_nil]
    by_cases hi : i < s.conns.length
    · rw [List.getElem?_append_left hi] at hd
      exact h.conns i d hd
    · rw [List.getElem?_append_right (by omega)] at hd
      rcases hfresh d (List.mem_of_getElem? hd) with ⟨peer, rfl⟩
      rw [h.unborn i (by omega)]
      exact .start peer

theorem System.Refines.quiet (h : s.Refines config actions) {a : Action}
    (ha : ∀ i, fed i [a] = []) (hconns : t.conns = s.conns) :
    t.Refines config (actions ++ [a]) := by
  have hfresh : ∀ c ∈ ([] : List Conn), ∃ peer, c = .start config peer := by simp
  exact h.spawned ha hfresh (hconns.trans (List.append_nil _).symm)

theorem System.Refines.step (h : s.Refines config actions) (hc : ∀ c ∈ s.conns, c.Coherent)
    {a : Action} (he : System.exec config s a = some t) : t.Refines config (actions ++ [a]) := by
  cases a with
  | reader j input =>
    rcases Option.bind_eq_some_iff.mp he with ⟨c, hfound, hrest⟩
    rcases Option.map_eq_some_iff.mp hrest with ⟨⟨sh, c'⟩, hstep, rfl⟩
    have hfed : ∀ i, fed i [.reader j input] = if j = i then input.fed else [] := by
      intro i
      simp [fed]
    refine h.conn hfound (fun i hij => by rw [hfed, if_neg hij]) ?_ rfl
    rw [hfed, if_pos rfl]
    exact (h.conns j c hfound).reader (hc c (List.mem_of_getElem? hfound)) hstep
  | delivery j =>
    rcases Option.bind_eq_some_iff.mp he with ⟨c, hfound, hrest⟩
    rcases Option.map_eq_some_iff.mp hrest with ⟨⟨sh, c'⟩, hstep, rfl⟩
    refine h.conn hfound (fun _ _ => rfl) ?_ rfl
    rw [show fed j [.delivery j] = [] from rfl, List.append_nil]
    exact (h.conns j c hfound).delivery (deliveryStep_step hstep)
  | listener j input =>
    rcases Option.bind_eq_some_iff.mp he with ⟨l, -, hrest⟩
    rcases Option.map_eq_some_iff.mp hrest with ⟨⟨sh, l', spawned⟩, hstep, rfl⟩
    exact h.spawned (fun _ => rfl) (fun _ hc => (listenerStep_step hstep).fresh hc) rfl
  | receiver input =>
    rcases Option.map_eq_some_iff.mp he with ⟨out, -, rfl⟩
    exact h.quiet (fun _ => rfl) rfl
  | task j =>
    rcases Option.bind_eq_some_iff.mp he with ⟨task, -, hrest⟩
    rcases Option.map_eq_some_iff.mp hrest with ⟨out, -, rfl⟩
    exact h.quiet (fun _ => rfl) rfl
  | worker move =>
    rcases workerStep_step he with ⟨_, _, _, _, rfl, -⟩
    exact h.quiet (fun _ => rfl) rfl
  | drain move =>
    have hstep : SystemStep config s (.drain move) t := drainStep_step he
    cases hstep <;> exact h.quiet (fun _ => rfl) rfl
  | elsewhere =>
    cases he
    exact h.quiet (fun _ => rfl) rfl

theorem run_refines
    (h : run (System.exec config) (fun _ _ => True) (.start config) actions = some s) :
    s.Refines config actions := by
  apply run_history (fun actions s => s.Refines config actions) _ _ h
  · exact ⟨fun _ _ => rfl, fun i c hc => by simp [System.start] at hc⟩
  · intro actions t a u ht _ ih he
    exact ih.step (conns_coherent (Reached.of_run .start ht)) he

end Runs

/-- In every run, the messages that a stream connection hands to the workers are, in order, the
first of those that the framer finds in what the connection has read. Once the connection is
closed at the end of its stream, with no shutdown and workers throughout, they are all of them,
and each has been accepted at its last attempt. -/
theorem stream_delivered (config : Config) (actions : List Action) (s : System)
    (h : run (System.exec config) (fun _ _ => True) (.start config) actions = some s) (i : ℕ)
    (c : Conn) (hc : s.conns[i]? = some c) :
    c.blocks.map (fun b => b.1.message) <+:
      (serveStream config.limits (fed i actions)).messages ∧
    (c.reader = .done → c.eof = true → c.workersGone = false → s.shared.cancelled = false →
      c.past.map (fun b => b.1.message) = (serveStream config.limits (fed i actions)).messages ∧
      ∀ b ∈ c.past, Ends s.shared b.2 .accepted) := by
  have hreached : s.Reachable config := Reached.of_run .start h
  have hmem := List.mem_of_getElem? hc
  rcases conns_paced hreached c hmem with ⟨hpaced, horder⟩
  rcases (run_refines h).conns i c hc [] (fun _ => rfl) with ⟨n, hframed, hat⟩
  rw [List.append_nil] at hframed hat
  constructor
  · have hloop : c.framed <+: (serveStream config.limits (fed i actions)).messages := by
      rw [← hframed]
      exact serveStream_messages config.limits _ n
    have hblocks := horder.blocks.map PendingMessage.message
    rw [List.map_map] at hblocks
    exact (hblocks.trans ⟨_, horder.framed.symm⟩).trans hloop
  · intro hdone heof hworking hrunning
    rw [hdone] at hat
    have hcoherent := conns_coherent hreached c hmem
    have hfinished := hcoherent.closed (.inr (.inr hdone))
    have hlive : c.live = [] := by
      simp [Conn.live, hfinished, (hcoherent.finished hfinished).2, hdone, Delivery.current,
        Reader.hand]
    constructor
    · rw [serveStream_eq (hat heof), hframed, horder.framed, horder.numbered, hlive, hdone]
      simp [Reader.unnumbered]
    · intro b hb
      rcases (hpaced.past b hb).2.2 with hcancelled | hgone | haccepted
      · simp [hrunning] at hcancelled
      · simp [hworking] at hgone
      · exact haccepted

/-- One message in two reads, then the end of the stream, all the way to the last step. -/
def served : List Action :=
  serving [120] 1 ++ [.reader 0 (.read [10])] ++ List.replicate 6 (.reader 0 (.go 0)) ++
    [.reader 0 .eof, .reader 0 (.go 0), .delivery 0, .delivery 0, .worker .hire,
      .worker (.take 0), .worker (.answer 0 .accepted)] ++ List.replicate 5 (.delivery 0) ++
    List.replicate 3 (.reader 0 (.go 0))

theorem stream_delivered_closed :
    ∃ (s : System) (c : Conn),
      run (System.exec .small) (fun _ _ => True) (.start .small) served = some s ∧
      s.conns[0]? = some c ∧ (c.reader = .done ∧ c.eof = true ∧ c.workersGone = false) ∧
      fed 0 served = [[120], [10]] ∧
      c.past.map (fun b => b.1.message) =
        (serveStream Config.small.limits (fed 0 served)).messages := by
  have hrun : ∃ s, run (System.exec .small) (fun _ _ => True) (.start .small) served = some s ∧
      s.shared.cancelled = false ∧ s.conns[0]?.any (fun c =>
        c.reader = .done && c.eof && !c.workersGone) = true :=
    exists_run served (by decide +kernel)
  rcases hrun with ⟨s, hs, hrunning, hconn⟩
  rcases Option.any_eq_true_iff_get _ _ |>.mp hconn with ⟨hsome, hdone⟩
  have hc := (Option.some_get hsome).symm
  simp only [Bool.and_eq_true, decide_eq_true_eq, Bool.not_eq_true'] at hdone
  refine ⟨s, _, hs, hc, ⟨hdone.1.1, hdone.1.2, hdone.2⟩, by decide, ?_⟩
  exact ((stream_delivered .small served s hs 0 _ hc).2 hdone.1.1 hdone.1.2 hdone.2 hrunning).1

end HyperRuby.Dispatch
