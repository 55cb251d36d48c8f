import HyperRuby.Dispatch.System
import HyperRuby.Dispatch.Steps

/-! # Steps of the listeners

What one step of a datagram task, of the datagram loop and of an accept loop can
do, with the guard it was taken under and the task it spawned.
-/
namespace HyperRuby.Dispatch
open Framing Library

inductive TaskStep (config : Config) (sh : Shared) (t : DatagramTask) :
    Shared → DatagramTask → Prop where
  | delivered (stage : Deliver) (sh' : Shared) (progress : Progress)
      (pc : t.stage = .delivering stage)
      (step : DeliverStep config sh t.pending 1 stage sh' progress) :
      TaskStep config sh t sh' (t.resume progress)
  | dropped (pc : t.stage = .dropping) :
      TaskStep config sh t (sh.count (fun c => { c with udpDropped := c.udpDropped + 1 }))
        { t with stage := .releasing }
  | released (pc : t.stage = .releasing) :
      TaskStep config sh t (sh.count (·.releasePending)) { t with stage := .freeing }
  | freed (pc : t.stage = .freeing) :
      TaskStep config sh t { sh with credits := sh.credits + 1 } { t with stage := .finished }

theorem taskStep_step {config : Config} {sh sh' : Shared} {t t' : DatagramTask}
    (h : t.step config sh = some (sh', t')) : TaskStep config sh t sh' t' := by
  unfold DatagramTask.step at h
  split at h
  case h_1 stage pc =>
    rcases Option.map_eq_some_iff.mp h with ⟨⟨shared, progress⟩, hd, hout⟩
    cases hout
    exact .delivered stage shared progress pc (deliver_step hd)
  case h_2 pc =>
    cases h
    exact .dropped pc
  case h_3 pc =>
    cases h
    exact .released pc
  case h_4 pc =>
    cases h
    exact .freed pc
  case h_5 => cases h

/-- Everything a step of `serve_datagrams` can do. -/
inductive ReceiverStep (config : Config) (sh : Shared) :
    Receiver → Shared → Receiver → Option DatagramTask → Prop where
  | cut : ReceiverStep config sh .receiving sh .truncated none
  | received (message : Bytes) (peer : Option String) (now : ℕ) :
      ReceiverStep config sh .receiving { sh with received := sh.received + 1 }
        (.crediting message peer now) none
  | stopped : ReceiverStep config sh .receiving sh .stopped none
  | skipped :
      ReceiverStep config sh .truncated
        (sh.count (fun c => { c with udpTruncated := c.udpTruncated + 1 })) .receiving none
  | acquired (message : Bytes) (peer : Option String) (now : ℕ) (free : 0 < sh.credits) :
      ReceiverStep config sh (.crediting message peer now) { sh with credits := sh.credits - 1 }
        (.numbering message peer now) none
  | refused (message : Bytes) (peer : Option String) (now : ℕ) :
      ReceiverStep config sh (.crediting message peer now) sh .uncredited none
  | dropped :
      ReceiverStep config sh .uncredited
        (sh.count (fun c => { c with udpDropped := c.udpDropped + 1 })) .receiving none
  | numbered (message : Bytes) (peer : Option String) (now : ℕ) :
      ReceiverStep config sh (.numbering message peer now)
        { sh with nextMessageId := sh.nextMessageId + 1 }
        (.gauging ⟨message, false, peer, .datagram, now, sh.nextMessageId⟩) none
  | gauged (p : PendingMessage) :
      ReceiverStep config sh (.gauging p)
        (sh.count (fun c => { c with pending := c.pending + 1 })) (.spawning p) none
  | spawned (p : PendingMessage) :
      ReceiverStep config sh (.spawning p) sh .receiving (some ⟨p, .delivering .pushing⟩)

theorem receiverStep_step {config : Config} {sh sh' : Shared} {r r' : Receiver}
    {input : Receiver.Input} {spawned : Option DatagramTask}
    (h : r.step config sh input = some (sh', r', spawned)) :
    ReceiverStep config sh r sh' r' spawned := by
  unfold Receiver.step at h
  split at h
  case h_1 message peer now =>
    split_ifs at h
    · cases h
      exact .cut
    · cases h
      exact .received message peer now
  case h_2 =>
    split_ifs at h
    cases h
    exact .stopped
  case h_3 =>
    cases h
    exact .skipped
  case h_4 message peer now =>
    split_ifs at h with hfree
    · cases h
      exact .acquired message peer now hfree
    · cases h
      exact .refused message peer now
  case h_5 =>
    cases h
    exact .dropped
  case h_6 message peer now =>
    cases h
    exact .numbered message peer now
  case h_7 p =>
    cases h
    exact .gauged p
  case h_8 p =>
    cases h
    exact .spawned p
  case h_9 => cases h

/-- Everything a step of an accept loop can do. -/
inductive ListenerStep (config : Config) (sh : Shared) :
    Listener → Shared → Listener → Option Conn → Prop where
  | accepted (peer : Option String) :
      ListenerStep config sh .accepting { sh with connections := sh.connections + 1 }
        (.counted peer sh.connections) none
  | stopped : ListenerStep config sh .accepting sh .stopped none
  | over (peer : Option String) (before : ℕ) (full : config.maxConnections ≤ before) :
      ListenerStep config sh (.counted peer before) sh .refusing none
  | under (peer : Option String) (before : ℕ) (room : before < config.maxConnections) :
      ListenerStep config sh (.counted peer before) sh (.opening peer) none
  | uncounted :
      ListenerStep config sh .refusing { sh with connections := sh.connections - 1 } .refused none
  | refused :
      ListenerStep config sh .refused
        (sh.count (fun c => { c with connectionsRefused := c.connectionsRefused + 1 }))
        .accepting none
  | opened (peer : Option String) :
      ListenerStep config sh (.opening peer)
        (sh.count (fun c => { c with connectionsOpened := c.connectionsOpened + 1 }))
        (.spawning peer) none
  | spawned (peer : Option String) :
      ListenerStep config sh (.spawning peer) sh .accepting (some (.start config peer))

theorem listenerStep_step {config : Config} {sh sh' : Shared} {l l' : Listener}
    {input : Listener.Input} {spawned : Option Conn}
    (h : l.step config sh input = some (sh', l', spawned)) :
    ListenerStep config sh l sh' l' spawned := by
  unfold Listener.step at h
  split at h
  case h_1 peer =>
    cases h
    exact .accepted peer
  case h_2 =>
    split_ifs at h
    cases h
    exact .stopped
  case h_3 peer before =>
    split_ifs at h with hfull
    · cases h
      exact .over peer before hfull
    · cases h
      exact .under peer before (Nat.lt_of_not_le hfull)
  case h_4 =>
    cases h
    exact .uncounted
  case h_5 =>
    cases h
    exact .refused
  case h_6 peer =>
    cases h
    exact .opened peer
  case h_7 peer =>
    cases h
    exact .spawned peer
  case h_8 => cases h

theorem ListenerStep.fresh {config : Config} {sh sh' : Shared} {l l' : Listener}
    {spawned : Option Conn} (h : ListenerStep config sh l sh' l' spawned) {c : Conn}
    (hc : c ∈ spawned.toList) : ∃ peer, c = .start config peer := by
  cases h <;> simp_all

end HyperRuby.Dispatch
