import HyperRuby.Dispatch.Outstanding
import HyperRuby.Library.Progress

/-! # Nothing waits for something that waits for it

Readers wait for credits and for room in their channels, delivery tasks for room
in the worker queue and for verdicts, workers for the queue. None of these waits
closes a circle: where no task can take a step by itself, every message has been
dealt with and what is still open waits for the outside.
-/
namespace HyperRuby.Dispatch
open Framing Library

/-- The steps that need nothing from outside; the handler returns in the end. -/
def Action.internal : Action → Bool
  | .listener _ .go | .reader _ (.go _) | .delivery _ | .receiver .go | .task _ => true
  | .worker (.take _) | .worker (.answer _ _) => true
  | _ => false

/-- A step of certain kinds that changes something: a push onto a full queue does not. -/
def System.Moves (config : Config) (kinds : Action → Bool) (s : System) (a : Action) : Prop :=
  kinds a = true ∧ s.exec config a ≠ some s

instance (config : Config) (kinds : Action → Bool) (s : System) (a : Action) :
    Decidable (s.Moves config kinds a) := inferInstanceAs (Decidable (_ ∧ _))

/-- No step of certain kinds changes anything. -/
abbrev System.AtRest (config : Config) (kinds : Action → Bool) (s : System) : Prop :=
  Rests (System.exec config) (System.Moves config kinds) s

/-- A wait for a verdict that has been given, or whose channel is closed. -/
def Shared.Answered (sh : Shared) (waits : Multiset SyslogDelivery) : Prop :=
  ∀ d ∈ waits, ∃ o, sh.oneshots[d.resultTx]? = some o ∧ o.vacant = false

section Tasks
variable {config : Config} {sh sh' : Shared} {p : PendingMessage} {attempt : ℕ} {stage : Deliver}
  {c : Conn}

theorem deliver_moves (config : Config) (hroom : sh.receiversGone = true ∨ sh.queue = [])
    (hanswered : sh.Answered (stage.waitsFor p attempt)) :
    ∃ sh' progress, deliver config sh p attempt stage = some (sh', progress) ∧
      progress ≠ .full := by
  cases stage with
  | pushing =>
    by_cases hgone : sh.receiversGone = true
    · exact ⟨sh, .ended .unavailable, by rw [deliver, if_pos hgone], by simp⟩
    · have hlength : sh.queue.length < max 1 config.channelCapacity := by
        rw [hroom.resolve_left hgone, List.length_nil]
        omega
      exact ⟨sh.push (p.attempted attempt), .pushed ⟨p.attempted attempt, sh.oneshots.length⟩,
        by rw [deliver, if_neg hgone, if_pos hlength], by simp⟩
  | awaiting rx =>
    rcases hanswered ⟨p.attempted attempt, rx⟩ (Multiset.mem_singleton_self _) with ⟨o, ho, hvacant⟩
    cases o with
    | empty => cases hvacant
    | value result => exact ⟨sh, .answered result, by simp only [deliver, ho], by simp⟩
    | closed => exact ⟨sh, .ended .unavailable, by simp only [deliver, ho], by simp⟩
  | counting result => exact ⟨_, _, rfl, by simp⟩

theorem DeliverStep.resume_ne {progress : Progress}
    (h : DeliverStep config sh p attempt stage sh' progress) (hfull : progress ≠ .full)
    (pc : c.delivery = .delivering p attempt stage) : c.resume p attempt progress ≠ c := by
  intro heq
  have hdelivery := congrArg Conn.delivery heq
  rw [pc] at hdelivery
  cases h with
  | full => exact hfull rfl
  | counted result => cases result <;> cases hdelivery
  | _ => cases hdelivery

theorem DeliverStep.resume_task_ne {t : DatagramTask} {progress : Progress}
    (h : DeliverStep config sh t.pending 1 stage sh' progress) (hfull : progress ≠ .full)
    (pc : t.stage = .delivering stage) : t.resume progress ≠ t := by
  intro heq
  have hstage := congrArg DatagramTask.stage heq
  rw [pc] at hstage
  cases h with
  | full => exact hfull rfl
  | counted result => cases result <;> cases hstage
  | _ => cases hstage

theorem Conn.delivery_rests (hrest : ∀ out, c.deliveryStep config sh = some out → out.2 = c)
    (hroom : sh.receiversGone = true ∨ sh.queue = [])
    (hanswered : sh.Answered c.delivery.waitsFor) :
    (c.delivery = .receiving ∧ c.channel = [] ∧ c.reader.senderDropped = false) ∨
      c.delivery = .finished := by
  unfold Conn.deliveryStep at hrest
  cases hd : c.delivery with
  | receiving =>
    rw [hd] at hrest
    cases hch : c.channel with
    | cons p channel =>
      rw [hch] at hrest
      have hdelivery := congrArg Conn.delivery (hrest _ rfl)
      rw [hd] at hdelivery
      split_ifs at hdelivery
    | nil =>
      refine .inl ⟨rfl, rfl, ?_⟩
      by_contra hdropped
      rw [hch] at hrest
      have hdelivery := congrArg Conn.delivery
        (hrest _ (if_pos (Bool.not_eq_false _ ▸ hdropped)))
      rw [hd] at hdelivery
      cases hdelivery
  | delivering p attempt stage =>
    rw [hd] at hrest hanswered
    rcases deliver_moves config hroom hanswered with ⟨sh', progress, hdeliver, hfull⟩
    exact absurd (hrest (sh', c.resume p attempt progress) (by simp [hdeliver]))
      ((deliver_step hdeliver).resume_ne hfull hd)
  | checking p attempt =>
    rw [hd] at hrest
    have hdelivery := congrArg Conn.delivery (hrest _ rfl)
    rw [hd] at hdelivery
    split_ifs at hdelivery
  | sleeping | abandoning | releasing | dropping =>
    rw [hd] at hrest
    have hdelivery := congrArg Conn.delivery (hrest _ rfl)
    rw [hd] at hdelivery
    cases hdelivery
  | finished => exact .inr rfl

theorem DatagramTask.rests {t : DatagramTask}
    (hrest : ∀ out, t.step config sh = some out → out.2 = t)
    (hroom : sh.receiversGone = true ∨ sh.queue = []) (hanswered : sh.Answered t.waitsFor) :
    t.stage = .finished := by
  unfold DatagramTask.step at hrest
  unfold DatagramTask.waitsFor at hanswered
  cases hs : t.stage with
  | delivering stage =>
    rw [hs] at hrest hanswered
    rcases deliver_moves config hroom hanswered with ⟨sh', progress, hdeliver, hfull⟩
    exact absurd (hrest (sh', t.resume progress) (by simp [hdeliver]))
      ((deliver_step hdeliver).resume_task_ne hfull hs)
  | dropping | releasing | freeing =>
    rw [hs] at hrest
    have hstage := congrArg DatagramTask.stage (hrest _ rfl)
    rw [hs] at hstage
    cases hstage
  | finished => rfl

theorem Conn.call_progress {reply : Reply} {framer : Framer} {buffer : Bytes}
    (h : c.call config = .ok (reply, framer, buffer)) (hreply : reply ≠ .ok none)
    (hfatal : ∀ error, reply = .error error → error.fatal = false) :
    framer.other.weight buffer < c.framer.other.weight c.buffer :=
  (Session.call_progress (s := ⟨c.framer, c.buffer, [], c.eof, [], .running⟩) h).2 hreply hfatal

theorem Conn.decodeStep_ne (pc : c.reader = .decoding) : (c.decodeStep config sh 0).2 ≠ c := by
  intro heq
  have hreader := congrArg Conn.reader heq
  have hframer := congrArg Conn.framer heq
  have hbuffer := congrArg Conn.buffer heq
  unfold Conn.decodeStep at hreader hframer hbuffer
  rw [pc] at hreader
  split at hreader
  case h_1 | h_2 => cases hreader
  case h_3 => split_ifs at hreader
  case h_4 error framer buffer call =>
    -- a frame is skipped: the loop turns again, with less in the buffer
    split_ifs at hreader with hfatal
    rw [call] at hframer hbuffer
    have hlt := Conn.call_progress call (by simp) (by simpa using hfatal)
    rw [show framer = c.framer from hframer, show buffer = c.buffer from hbuffer] at hlt
    exact lt_irrefl _ hlt

/-- The reader waits for its peer, or has ended. -/
def Reader.waits : Reader → Bool
  | .proxy | .reading | .done | .panicked => true
  | _ => false

/-- A reader at rest waits for its peer, has ended, or finds no credit. -/
theorem Conn.reader_rests (hrest : ∀ out, c.readerStep config sh (.go 0) = some out → out.2 = c)
    (hdelivery : (c.delivery = .receiving ∧ c.channel = [] ∧ c.reader.senderDropped = false) ∨
      c.delivery = .finished) :
    c.reader.waits = true ∨ (c.reader.account = 0 ∧ sh.credits = 0) := by
  unfold Conn.readerStep at hrest
  cases hr : c.reader with
  | proxy | reading | done | panicked => exact .inl rfl
  | decoding =>
    rw [hr] at hrest
    exact absurd (hrest _ rfl) (Conn.decodeStep_ne hr)
  | acquiring message now =>
    refine .inr ⟨rfl, ?_⟩
    rw [hr] at hrest
    by_contra hcredits
    have hreader := congrArg Conn.reader (hrest _ (if_pos (Nat.pos_of_ne_zero hcredits)))
    rw [hr] at hreader
    cases hreader
  | sending p =>
    rw [hr] at hrest
    rcases hdelivery with ⟨hreceiving, hchannel, -⟩ | hfinished
    · have halive : c.delivery ≠ .finished := by simp [hreceiving]
      have hspace : c.channel.length < config.maxPendingPerConnection := by
        rw [hchannel]
        exact config.perConnectionPos
      have hreader := congrArg Conn.reader
        (hrest _ ((if_neg halive).trans (if_pos hspace)))
      rw [hr] at hreader
      cases hreader
    · have hreader := congrArg Conn.reader (hrest _ (if_pos hfinished))
      rw [hr] at hreader
      cases hreader
  | joining =>
    rw [hr] at hrest hdelivery
    have hfinished := hdelivery.resolve_left (by simp [Reader.senderDropped])
    have hreader := congrArg Conn.reader (hrest _ (if_pos hfinished))
    rw [hr] at hreader
    cases hreader
  | numbering | gauging | unsent | abandoning | releasing | closing | closed =>
    rw [hr] at hrest
    have hreader := congrArg Conn.reader (hrest _ rfl)
    rw [hr] at hreader
    cases hreader

end Tasks

section Gone
variable {config : Config} {sh sh' : Shared}

/-- Nothing joins a queue that has no receiver. -/
def Shared.Shut (sh sh' : Shared) : Prop :=
  sh'.receiversGone = sh.receiversGone ∧ (sh.receiversGone = true → sh'.queue = sh.queue)

theorem deliver_shut {p : PendingMessage} {attempt : ℕ} {stage : Deliver} {progress : Progress}
    (h : deliver config sh p attempt stage = some (sh', progress)) : sh.Shut sh' := by
  have hstep := deliver_step h
  cases hstep with
  | pushed room =>
    refine ⟨rfl, fun hgone => ?_⟩
    simp [deliver, hgone] at h
  | counted result => cases result <;> exact ⟨rfl, fun _ => rfl⟩
  | _ => exact ⟨rfl, fun _ => rfl⟩

theorem Conn.deliveryStep_shut {c c' : Conn} (h : c.deliveryStep config sh = some (sh', c')) :
    sh.Shut sh' := by
  have hstep := deliveryStep_step h
  cases hstep with
  | delivered p attempt stage _ progress pc =>
    rw [Conn.deliveryStep, pc] at h
    rcases Option.map_eq_some_iff.mp h with ⟨out, hout, heq⟩
    rw [← show out.1 = sh' from congrArg Prod.fst heq]
    exact deliver_shut hout
  | _ => exact ⟨rfl, fun _ => rfl⟩

theorem DatagramTask.step_shut {t t' : DatagramTask} (h : t.step config sh = some (sh', t')) :
    sh.Shut sh' := by
  have hstep := taskStep_step h
  cases hstep with
  | delivered stage _ progress pc =>
    rw [DatagramTask.step, pc] at h
    rcases Option.map_eq_some_iff.mp h with ⟨out, hout, heq⟩
    rw [← show out.1 = sh' from congrArg Prod.fst heq]
    exact deliver_shut hout
  | _ => exact ⟨rfl, fun _ => rfl⟩

theorem gone_queue {allowed : System → Action → Prop} {s : System}
    (h : Reached (System.exec config) allowed (.start config) s) :
    s.shared.receiversGone = true → s.shared.queue = [] := by
  apply h.invariant (fun s => s.shared.receiversGone = true → s.shared.queue = [])
  · exact fun _ => rfl
  intro s a t _ _ ih he
  have hkeep : s.shared.Shut t.shared → t.shared.receiversGone = true → t.shared.queue = [] := by
    rintro ⟨hgone, hqueue⟩ hnow
    rw [hgone] at hnow
    exact (hqueue hnow).trans (ih hnow)
  cases a with
  | delivery i =>
    rcases Option.bind_eq_some_iff.mp he with ⟨c, -, hrest⟩
    rcases Option.map_eq_some_iff.mp hrest with ⟨⟨sh, c'⟩, hstep, rfl⟩
    exact hkeep (Conn.deliveryStep_shut hstep)
  | task i =>
    rcases Option.bind_eq_some_iff.mp he with ⟨task, -, hrest⟩
    rcases Option.map_eq_some_iff.mp hrest with ⟨⟨sh, task'⟩, hstep, rfl⟩
    exact hkeep (DatagramTask.step_shut hstep)
  | worker move =>
    cases workerStep_cases he with
    | took k d queue idle front =>
      intro hgone
      rw [ih hgone] at front
      cases front
    | gone => exact fun _ => rfl
    | _ => exact ih
  | listener i input =>
    cases exec_step he with
    | listener _ _ _ _ _ _ _ step => cases step <;> exact ih
  | reader i input =>
    cases exec_step he with
    | reader _ _ _ _ _ _ step => cases step <;> exact ih
  | receiver input =>
    cases exec_step he with
    | receiver _ _ _ _ step => cases hr : s.receiver <;> rw [hr] at step <;> cases step <;> exact ih
  | drain move => cases exec_step he <;> exact ih
  | elsewhere => cases exec_step he; exact ih

end Gone

end HyperRuby.Dispatch
