import HyperRuby.Dispatch.Connection

/-! # What a step of a connection can do

The step functions of the reader and of the delivery task, arm by arm, as
relations: every invariant of a connection is a case split over these.
-/
namespace HyperRuby.Dispatch
open Framing

/-- Everything a step of `Dispatcher::deliver` can do. -/
inductive DeliverStep (config : Config) (sh : Shared) (p : PendingMessage) (attempt : ℕ) :
    Deliver → Shared → Progress → Prop where
  | gone : DeliverStep config sh p attempt .pushing sh (.ended .unavailable)
  | full : DeliverStep config sh p attempt .pushing sh .full
  | pushed (room : sh.queue.length < max 1 config.channelCapacity) :
      DeliverStep config sh p attempt .pushing (sh.push (p.attempted attempt))
        (.pushed ⟨p.attempted attempt, sh.oneshots.length⟩)
  | answered (rx : ℕ) (result : HandlerResult) (sent : sh.oneshots[rx]? = some (.value result)) :
      DeliverStep config sh p attempt (.awaiting rx) sh (.answered result)
  | unanswered (rx : ℕ) (dropped : sh.oneshots[rx]? = some .closed) :
      DeliverStep config sh p attempt (.awaiting rx) sh (.ended .unavailable)
  | counted (result : HandlerResult) :
      DeliverStep config sh p attempt (.counting result) (countVerdict sh result).1
        (.ended (countVerdict sh result).2)

theorem deliver_step {config : Config} {sh sh' : Shared} {p : PendingMessage} {attempt : ℕ}
    {stage : Deliver} {progress : Progress}
    (h : deliver config sh p attempt stage = some (sh', progress)) :
    DeliverStep config sh p attempt stage sh' progress := by
  cases stage with
  | pushing =>
    simp only [deliver] at h
    split_ifs at h with hgone hroom
    · cases h
      exact .gone
    · cases h
      exact .pushed hroom
    · cases h
      exact .full
  | awaiting rx =>
    simp only [deliver] at h
    split at h
    · cases h
      exact .answered rx _ ‹_›
    · cases h
      exact .unanswered rx ‹_›
    · cases h
  | counting result =>
    cases h
    exact .counted result

/-- Everything a step of `serve_stream` can do. -/
inductive ReaderStep (config : Config) (sh : Shared) (c : Conn) : Shared → Conn → Prop where
  | headed (chunk : Bytes) (pc : c.reader = .proxy) (some : chunk ≠ [])
      (short : Proxy.parse (c.buffer ++ chunk) Proxy.maxProxyHeaderBytes = .ok (.ok .incomplete)) :
      ReaderStep config sh c sh { c with buffer := c.buffer ++ chunk, reader := .proxy }
  | proxied (source : Option String) (rest : Bytes) (pc : c.reader = .proxy) :
      ReaderStep config sh c sh
        { c with buffer := rest, peer := source.or c.peer, reader := .decoding }
  | badProxy (pc : c.reader = .proxy) :
      ReaderStep config sh c
        (sh.count (fun k => { k with proxyHeaderErrors := k.proxyHeaderErrors + 1 }))
        { c with delivery := .finished, reader := .closing }
  | noProxy (pc : c.reader = .proxy) :
      ReaderStep config sh c
        (sh.count (fun k => { k with proxyReadErrors := k.proxyReadErrors + 1 }))
        { c with delivery := .finished, reader := .closing }
  | panicked (trap : Trap) (pc : c.reader = .decoding) (call : c.call config = .error trap) :
      ReaderStep config sh c sh { c with reader := .panicked }
  | framed (message : Bytes) (framer : Framer) (buffer : Bytes) (now : ℕ)
      (pc : c.reader = .decoding)
      (call : c.call config = .ok (.ok (some message), framer, buffer)) :
      ReaderStep config sh c sh
        { c with
          framer := framer, buffer := buffer, framed := c.framed ++ [message]
          reader := .acquiring message now }
  | decoded (framer : Framer) (buffer : Bytes) (pc : c.reader = .decoding)
      (call : c.call config = .ok (.ok none, framer, buffer)) :
      ReaderStep config sh c sh
        { c with
          framer := framer, buffer := buffer, reader := if c.eof then .joining else .reading }
  | rejected (error : FrameError) (framer : Framer) (buffer : Bytes) (pc : c.reader = .decoding)
      (call : c.call config = .ok (.error error, framer, buffer)) :
      ReaderStep config sh c (sh.count (fun k => k.recordRejection error.reason))
        { c with
          framer := framer, buffer := buffer
          reader := if error.fatal then .joining else .decoding }
  | read (chunk : Bytes) (pc : c.reader = .reading) (some : chunk ≠ []) :
      ReaderStep config sh c sh { c with buffer := c.buffer ++ chunk, reader := .decoding }
  | ended (pc : c.reader = .reading) :
      ReaderStep config sh c sh { c with eof := true, reader := .decoding }
  | stopped (pc : c.reader = .reading) :
      ReaderStep config sh c sh { c with reader := .joining }
  | acquired (message : Bytes) (now : ℕ) (pc : c.reader = .acquiring message now)
      (free : 0 < sh.credits) :
      ReaderStep config sh c { sh with credits := sh.credits - 1 }
        { c with reader := .numbering message now }
  | numbered (message : Bytes) (now : ℕ) (pc : c.reader = .numbering message now) :
      ReaderStep config sh c
        { sh with nextMessageId := sh.nextMessageId + 1, numbered := sh.numbered + 1 }
        { c with
          reader := .gauging ⟨message, true, c.peer, .stream, now, sh.nextMessageId⟩
          numbered := c.numbered ++ [⟨message, true, c.peer, .stream, now, sh.nextMessageId⟩] }
  | gauged (p : PendingMessage) (pc : c.reader = .gauging p) :
      ReaderStep config sh c (sh.count (fun k => { k with pending := k.pending + 1 }))
        { c with reader := .sending p }
  | unsent (p : PendingMessage) (pc : c.reader = .sending p) (gone : c.delivery = .finished) :
      ReaderStep config sh c sh { c with reader := .unsent p }
  | sent (p : PendingMessage) (pc : c.reader = .sending p) (alive : c.delivery ≠ .finished)
      (room : c.channel.length < config.maxPendingPerConnection) :
      ReaderStep config sh c sh { c with channel := c.channel ++ [p], reader := .decoding }
  | freed (p : PendingMessage) (pc : c.reader = .unsent p) :
      ReaderStep config sh c { sh with credits := sh.credits + 1 }
        { c with reader := .abandoning p }
  | abandoned (p : PendingMessage) (pc : c.reader = .abandoning p) :
      ReaderStep config sh c (sh.count (·.abandon)) { c with reader := .releasing p }
  | released (p : PendingMessage) (pc : c.reader = .releasing p) :
      ReaderStep config sh c (sh.count (·.releasePending)) { c with reader := .joining }
  | joined (pc : c.reader = .joining) (gone : c.delivery = .finished) :
      ReaderStep config sh c sh { c with reader := .closing }
  | closing (pc : c.reader = .closing) :
      ReaderStep config sh c { sh with connections := sh.connections - 1 }
        { c with reader := .closed }
  | closed (pc : c.reader = .closed) :
      ReaderStep config sh c
        (sh.count (fun k => { k with connectionsClosed := k.connectionsClosed + 1 }))
        { c with reader := .done }

section Reader
variable {config : Config} {sh sh' : Shared} {c c' : Conn}

theorem decodeStep_step {now : ℕ} (pc : c.reader = .decoding)
    (h : Conn.decodeStep config sh c now = (sh', c')) : ReaderStep config sh c sh' c' := by
  unfold Conn.decodeStep at h
  split at h
  case h_1 call =>
    cases h
    exact .panicked _ pc call
  case h_2 call =>
    cases h
    exact .framed _ _ _ now pc call
  case h_3 call =>
    cases h
    exact .decoded _ _ pc call
  case h_4 call =>
    cases h
    exact .rejected _ _ _ pc call

theorem readStep_step {input : Conn.Input} (pc : c.reader = .reading)
    (h : c.readStep config sh input = some (sh', c')) : ReaderStep config sh c sh' c' := by
  cases input with
  | read chunk =>
    simp only [Conn.readStep] at h
    split_ifs at h with hne
    cases h
    exact .read chunk pc hne
  | eof =>
    cases h
    exact .ended pc
  | failed =>
    cases h
    exact .stopped pc
  | idle =>
    simp only [Conn.readStep] at h
    split_ifs at h
    cases h
    exact .stopped pc
  | cancelled =>
    simp only [Conn.readStep] at h
    split_ifs at h
    cases h
    exact .stopped pc
  | go | header | proxied | badProxy | noProxy => cases h

theorem proxyStep_step {input : Conn.Input} (pc : c.reader = .proxy)
    (h : c.proxyStep sh input = some (sh', c')) : ReaderStep config sh c sh' c' := by
  cases input with
  | header chunk =>
    simp only [Conn.proxyStep] at h
    split_ifs at h with hshort
    cases h
    exact .headed chunk pc hshort.1 hshort.2
  | proxied source rest =>
    cases h
    exact .proxied source rest pc
  | badProxy =>
    cases h
    exact .badProxy pc
  | noProxy =>
    cases h
    exact .noProxy pc
  | go | read | eof | failed | idle | cancelled => cases h

theorem readerStep_step {input : Conn.Input}
    (h : c.readerStep config sh input = some (sh', c')) : ReaderStep config sh c sh' c' := by
  unfold Conn.readerStep at h
  split at h
  case h_1 pc => exact proxyStep_step pc h
  case h_2 now pc => exact decodeStep_step pc (Option.some.inj h)
  case h_3 pc => exact readStep_step pc h
  case h_4 message now _ pc =>
    split_ifs at h with hfree
    cases h
    exact .acquired message now pc hfree
  case h_5 message now _ pc =>
    cases h
    exact .numbered message now pc
  case h_6 p _ pc =>
    cases h
    exact .gauged p pc
  case h_7 p _ pc =>
    split_ifs at h with hgone hroom
    · cases h
      exact .unsent p pc hgone
    · cases h
      exact .sent p pc hgone hroom
  case h_8 p _ pc =>
    cases h
    exact .freed p pc
  case h_9 p _ pc =>
    cases h
    exact .abandoned p pc
  case h_10 p _ pc =>
    cases h
    exact .released p pc
  case h_11 pc =>
    split_ifs at h with hgone
    cases h
    exact .joined pc hgone
  case h_12 pc =>
    cases h
    exact .closing pc
  case h_13 pc =>
    cases h
    exact .closed pc
  case h_14 => cases h

end Reader

theorem Conn.resume_frame (c : Conn) (p : PendingMessage) (attempt : ℕ) (progress : Progress) :
    ∃ delivery gone block,
      c.resume p attempt progress =
        { c with delivery := delivery, workersGone := gone, block := block } ∧
      delivery.current = some p := by
  rcases progress with _ | _ | _ | ⟨_ | _ | _⟩ <;> exact ⟨_, _, _, rfl, rfl⟩

/-- Everything a step of `deliver_stream_messages` can do. -/
inductive DeliveryStep (config : Config) (sh : Shared) (c : Conn) : Shared → Conn → Prop where
  | received (p : PendingMessage) (channel : List PendingMessage) (pc : c.delivery = .receiving)
      (front : c.channel = p :: channel) (working : c.workersGone = false) :
      DeliveryStep config sh c sh
        { c with channel := channel, delivery := .delivering p 1 .pushing }
  | skipped (p : PendingMessage) (channel : List PendingMessage) (pc : c.delivery = .receiving)
      (front : c.channel = p :: channel) (gone : c.workersGone = true) :
      DeliveryStep config sh c sh { c with channel := channel, delivery := .abandoning p }
  | finished (pc : c.delivery = .receiving) (empty : c.channel = [])
      (dropped : c.reader.senderDropped = true) :
      DeliveryStep config sh c sh { c with delivery := .finished }
  | delivered (p : PendingMessage) (attempt : ℕ) (stage : Deliver) (sh' : Shared)
      (progress : Progress) (pc : c.delivery = .delivering p attempt stage)
      (step : DeliverStep config sh p attempt stage sh' progress) :
      DeliveryStep config sh c sh' (c.resume p attempt progress)
  | gaveUp (p : PendingMessage) (attempt : ℕ) (pc : c.delivery = .checking p attempt)
      (cancelled : sh.cancelled = true) :
      DeliveryStep config sh c sh { c with delivery := .abandoning p }
  | held (p : PendingMessage) (attempt : ℕ) (pc : c.delivery = .checking p attempt)
      (running : sh.cancelled = false) :
      DeliveryStep config sh c sh { c with delivery := .sleeping p attempt }
  | woke (p : PendingMessage) (attempt : ℕ) (pc : c.delivery = .sleeping p attempt) :
      DeliveryStep config sh c sh { c with delivery := .delivering p (attempt + 1) .pushing }
  | abandoned (p : PendingMessage) (pc : c.delivery = .abandoning p) :
      DeliveryStep config sh c (sh.count (·.abandon)) { c with delivery := .releasing p }
  | released (p : PendingMessage) (pc : c.delivery = .releasing p) :
      DeliveryStep config sh c (sh.count (·.releasePending)) { c with delivery := .dropping p }
  | freed (p : PendingMessage) (pc : c.delivery = .dropping p) :
      DeliveryStep config sh c { sh with credits := sh.credits + 1 }
        { c with delivery := .receiving, past := c.past ++ [(p, c.block)], block := [] }

theorem deliveryStep_step {config : Config} {sh sh' : Shared} {c c' : Conn}
    (h : c.deliveryStep config sh = some (sh', c')) : DeliveryStep config sh c sh' c' := by
  unfold Conn.deliveryStep at h
  split at h
  case h_1 pc =>
    split at h
    case h_1 p channel front =>
      split_ifs at h with hgone
      · cases h
        exact .skipped p channel pc front hgone
      · cases h
        exact .received p channel pc front (Bool.eq_false_iff.mpr hgone)
    case h_2 front =>
      split_ifs at h with hdropped
      cases h
      exact .finished pc front hdropped
  case h_2 p attempt stage pc =>
    rcases Option.map_eq_some_iff.mp h with ⟨⟨shared, progress⟩, hd, hout⟩
    cases hout
    exact .delivered p attempt stage shared progress pc (deliver_step hd)
  case h_3 p attempt pc =>
    split_ifs at h with hcancelled
    · cases h
      exact .gaveUp p attempt pc hcancelled
    · cases h
      exact .held p attempt pc (Bool.eq_false_iff.mpr hcancelled)
  case h_4 p attempt pc =>
    cases h
    exact .woke p attempt pc
  case h_5 p pc =>
    cases h
    exact .abandoned p pc
  case h_6 p pc =>
    cases h
    exact .released p pc
  case h_7 p pc =>
    cases h
    exact .freed p pc
  case h_8 => cases h

theorem DeliveryStep.reader_eq {config : Config} {sh sh' : Shared} {c c' : Conn}
    (h : DeliveryStep config sh c sh' c') : c'.reader = c.reader := by
  cases h with
  | delivered p attempt stage _ progress =>
    rcases c.resume_frame p attempt progress with ⟨_, _, _, hresume, -⟩
    rw [hresume]
  | _ => rfl

end HyperRuby.Dispatch
