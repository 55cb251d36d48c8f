import HyperRuby.Dispatch.Interleaving

/-! # Attempts and their verdicts

A delivery task pushes one attempt after another at its message. What is known
of the attempts so far is fixed by the stage the task is in, and nothing that
happens elsewhere takes a verdict back.
-/
namespace HyperRuby.Dispatch
open Framing Library

section Verdicts

theorem verdict_eq {sh : Shared} {d : SyslogDelivery} {result : HandlerResult} :
    sh.verdict d = some result ↔ sh.oneshots[d.resultTx]? = some (.value result) := by
  unfold Shared.verdict
  split <;> simp_all

theorem Shared.Later.verdict {sh sh' : Shared} (h : sh.Later sh') {d : SyslogDelivery}
    {result : HandlerResult} (hd : sh.verdict d = some result) : sh'.verdict d = some result :=
  verdict_eq.mpr (h.verdicts _ _ (verdict_eq.mp hd))

/-- The deliveries are the attempts at one message, counted from one. -/
def Attempts (p : PendingMessage) (block : List SyslogDelivery) : Prop :=
  block.map SyslogDelivery.message = (List.range block.length).map (fun k => p.attempted (k + 1))

/-- Every one of the deliveries was refused, or its handler failed. -/
def Held (sh : Shared) (block : List SyslogDelivery) : Prop :=
  ∀ d ∈ block, sh.verdict d = some .refused ∨ sh.verdict d = some .failed

/-- The last of the deliveries got this verdict. -/
def Ends (sh : Shared) (block : List SyslogDelivery) (result : HandlerResult) : Prop :=
  ∃ d, block.getLast? = some d ∧ sh.verdict d = some result

def Answered (sh : Shared) (deliveries : List SyslogDelivery) : Prop :=
  ∀ d ∈ deliveries, ∃ result, sh.verdict d = some result

theorem attempts_append {p : PendingMessage} {block : List SyslogDelivery} (h : Attempts p block)
    (tx : ℕ) : Attempts p (block ++ [⟨p.attempted (block.length + 1), tx⟩]) := by
  rw [Attempts, List.map_append, h, List.length_append, List.length_singleton, List.range_succ,
    List.map_append]
  rfl

variable {sh sh' : Shared} {block : List SyslogDelivery}

theorem Held.later (hl : sh.Later sh') (h : Held sh block) : Held sh' block := by
  intro d hd
  rcases h d hd with hr | hf
  · exact .inl (hl.verdict hr)
  · exact .inr (hl.verdict hf)

theorem Ends.later (hl : sh.Later sh') {result : HandlerResult} (h : Ends sh block result) :
    Ends sh' block result := by
  rcases h with ⟨d, hd, hv⟩
  exact ⟨d, hd, hl.verdict hv⟩

theorem Answered.later (hl : sh.Later sh') (h : Answered sh block) : Answered sh' block := by
  intro d hd
  rcases h d hd with ⟨result, hv⟩
  exact ⟨result, hl.verdict hv⟩

theorem Held.dropLast (h : Held sh block) : Held sh block.dropLast :=
  fun d hd => h d (List.mem_of_mem_dropLast hd)

theorem forall_of_last {P : SyslogDelivery → Prop} {last : SyslogDelivery}
    (h : ∀ d ∈ block.dropLast, P d) (hlast : block.getLast? = some last) (hP : P last) :
    ∀ d ∈ block, P d := by
  intro d hd
  rw [← List.dropLast_append_getLast? last hlast] at hd
  rcases List.mem_append.mp hd with hd | hd
  · exact h d hd
  · obtain rfl : d = last := by simpa using hd
    exact hP

theorem held_of_ends {result : HandlerResult} (h : Held sh block.dropLast)
    (hend : Ends sh block result) (hr : result = .refused ∨ result = .failed) : Held sh block := by
  rcases hend with ⟨last, hlast, hv⟩
  apply forall_of_last h hlast
  rcases hr with rfl | rfl
  · exact .inl hv
  · exact .inr hv

theorem answered_of_ends {earlier : List SyslogDelivery} {result : HandlerResult}
    (h : Answered sh (earlier ++ block).dropLast) (hend : Ends sh block result) :
    Answered sh (earlier ++ block) := by
  rcases hend with ⟨last, hlast, hv⟩
  exact forall_of_last h (by simp [hlast]) ⟨result, hv⟩

end Verdicts

def Conn.pushed (c : Conn) : List SyslogDelivery := c.past.flatMap Prod.snd ++ c.block

/-- The blocks of a connection, each with its message; the last one may be under way. -/
def Conn.blocks (c : Conn) : List (PendingMessage × List SyslogDelivery) :=
  c.past ++ (c.delivery.current.map (fun p => (p, c.block))).toList

def Delivery.awaits : Delivery → Bool
  | .delivering _ _ (.awaiting _) => true
  | _ => false

/-- What a stage of the delivery task says about the attempts at its message. -/
def Delivery.Pace (sh : Shared) (gone : Bool) (block : List SyslogDelivery) : Delivery → Prop
  | .receiving | .finished => block = []
  | .delivering p attempt .pushing =>
    gone = false ∧ Attempts p block ∧ Held sh block ∧ block.length + 1 = attempt
  | .delivering p attempt (.awaiting rx) =>
    gone = false ∧ Attempts p block ∧ Held sh block.dropLast ∧ block.length = attempt ∧
      ∃ d, block.getLast? = some d ∧ d.resultTx = rx
  | .delivering p attempt (.counting result) =>
    gone = false ∧ Attempts p block ∧ Held sh block.dropLast ∧ block.length = attempt ∧
      Ends sh block result
  | .checking p attempt | .sleeping p attempt =>
    gone = false ∧ Attempts p block ∧ Held sh block ∧ block.length = attempt
  | .abandoning p =>
    Attempts p block ∧ Held sh block.dropLast ∧ (sh.cancelled = true ∨ gone = true)
  | .releasing p | .dropping p =>
    Attempts p block ∧ Held sh block.dropLast ∧
      (sh.cancelled = true ∨ gone = true ∨ Ends sh block .accepted)

structure Conn.Paced (sh : Shared) (c : Conn) : Prop where
  past : ∀ b ∈ c.past, Attempts b.1 b.2 ∧ Held sh b.2.dropLast ∧
    (sh.cancelled = true ∨ c.workersGone = true ∨ Ends sh b.2 .accepted)
  pace : c.delivery.Pace sh c.workersGone c.block
  answered : Answered sh c.pushed.dropLast
  idle : c.workersGone = false → c.delivery.awaits = false → Answered sh c.pushed

section Later
variable {sh sh' : Shared} {c : Conn}

theorem Delivery.Pace.later (hl : sh.Later sh') {gone : Bool} {block : List SyslogDelivery}
    {delivery : Delivery} (h : delivery.Pace sh gone block) : delivery.Pace sh' gone block := by
  cases delivery with
  | receiving | finished => exact h
  | delivering p attempt stage =>
    cases stage with
    | pushing => exact ⟨h.1, h.2.1, h.2.2.1.later hl, h.2.2.2⟩
    | awaiting rx => exact ⟨h.1, h.2.1, h.2.2.1.later hl, h.2.2.2⟩
    | counting result =>
      exact ⟨h.1, h.2.1, h.2.2.1.later hl, h.2.2.2.1, h.2.2.2.2.later hl⟩
  | checking | sleeping => exact ⟨h.1, h.2.1, h.2.2.1.later hl, h.2.2.2⟩
  | abandoning => exact ⟨h.1, h.2.1.later hl, h.2.2.imp_left hl.cancelled⟩
  | releasing | dropping =>
    exact ⟨h.1, h.2.1.later hl, h.2.2.imp hl.cancelled (Or.imp_right (Ends.later hl))⟩

theorem Conn.Paced.later (hl : sh.Later sh') (h : c.Paced sh) : c.Paced sh' where
  past b hb := by
    rcases h.past b hb with ⟨hattempts, hheld, hend⟩
    exact ⟨hattempts, hheld.later hl, hend.imp hl.cancelled (Or.imp_right (Ends.later hl))⟩
  pace := h.pace.later hl
  answered := h.answered.later hl
  idle hgone hawaits := (h.idle hgone hawaits).later hl

end Later

section Steps
variable {config : Config} {sh sh' : Shared} {c c' : Conn}

/-- A reader leaves the delivery side alone, except that it ends it unused when the PROXY
header is bad. -/
theorem ReaderStep.delivery_side (h : ReaderStep config sh c sh' c') (hc : c.Coherent) :
    c'.past = c.past ∧ c'.block = c.block ∧ c'.workersGone = c.workersGone ∧
      (c'.delivery = c.delivery ∨ c.delivery = .receiving ∧ c'.delivery = .finished) := by
  cases h with
  | badProxy pc | noProxy pc => exact ⟨rfl, rfl, rfl, .inr ⟨(hc.proxy pc).1, rfl⟩⟩
  | _ => exact ⟨rfl, rfl, rfl, .inl rfl⟩

/-- A step that pushes nothing and keeps the block at hand only has to answer for the stage
it leads to. -/
theorem Conn.Paced.move (hp : c.Paced sh) (hl : sh.Later sh') (hpast : c'.past = c.past)
    (hblock : c'.block = c.block) (hgone : c'.workersGone = c.workersGone ∨ c'.workersGone = true)
    (hpace : c'.delivery.Pace sh' c'.workersGone c.block)
    (hidle : c'.workersGone = false → c'.delivery.awaits = false → Answered sh c.pushed) :
    c'.Paced sh' := by
  have hlater := hp.later hl
  refine ⟨?_, by rw [hblock]; exact hpace,
    by rw [Conn.pushed, hpast, hblock]; exact hlater.answered, ?_⟩
  · intro b hb
    rw [hpast] at hb
    rcases hlater.past b hb with ⟨hattempts, hheld, hend⟩
    refine ⟨hattempts, hheld, ?_⟩
    rcases hgone with hsame | htrue
    · rw [hsame]
      exact hend
    · exact .inr (.inl htrue)
  · intro hfalse hawaits
    rw [Conn.pushed, hpast, hblock]
    exact (hidle hfalse hawaits).later hl

theorem Conn.Paced.reader (hp : c.Paced sh) (hc : c.Coherent)
    (h : ReaderStep config sh c sh' c') : c'.Paced sh' := by
  have hpace := hp.pace.later h.later
  have hidle := hp.idle
  rcases h.delivery_side hc with ⟨hpast, hblock, hgone, hsame | ⟨hreceiving, hfinished⟩⟩
  · exact hp.move h.later hpast hblock (.inl hgone) (by rw [hsame, hgone]; exact hpace)
      (by rw [hsame, hgone]; exact hidle)
  · rw [hreceiving] at hpace hidle
    exact hp.move h.later hpast hblock (.inl hgone) (by rw [hfinished]; exact hpace)
      (by rw [hfinished, hgone]; exact hidle)

theorem Conn.Paced.delivered (hp : c.Paced sh) {p : PendingMessage} {attempt : ℕ}
    {stage : Deliver} {progress : Progress} (pc : c.delivery = .delivering p attempt stage)
    (step : DeliverStep config sh p attempt stage sh' progress) :
    Conn.Paced sh' (c.resume p attempt progress) := by
  have hpace := hp.pace
  have hidle := hp.idle
  rw [pc] at hpace hidle
  cases step with
  | gone =>
    rcases hpace with ⟨-, hattempts, hheld, -⟩
    exact hp.move (.refl sh) rfl rfl (.inr rfl) ⟨hattempts, hheld.dropLast, .inr rfl⟩
      (by simp [Conn.resume])
  | full => exact hp.move (.refl sh) rfl rfl (.inl rfl) hpace hidle
  | pushed room =>
    rcases hpace with ⟨hgone, hattempts, hheld, rfl⟩
    have hl := sh.later_push (p.attempted (c.block.length + 1))
    simp only [Conn.resume]
    refine ⟨(hp.later hl).past, ⟨hgone, attempts_append hattempts _, ?_, by simp, ?_⟩, ?_, ?_⟩
    · rw [List.dropLast_concat]
      exact hheld.later hl
    · exact ⟨_, List.getLast?_concat, rfl⟩
    · rw [Conn.pushed, ← List.append_assoc, List.dropLast_concat]
      exact (hidle hgone rfl).later hl
    · intro _ hawaits
      cases hawaits
  | answered rx result sent =>
    rcases hpace with ⟨hgone, hattempts, hheld, hlength, d, hlast, rfl⟩
    have hend : Ends sh c.block result := ⟨d, hlast, verdict_eq.mpr sent⟩
    exact hp.move (.refl sh) rfl rfl (.inl rfl) ⟨hgone, hattempts, hheld, hlength, hend⟩
      (fun _ _ => answered_of_ends hp.answered hend)
  | unanswered rx dropped =>
    rcases hpace with ⟨-, hattempts, hheld, -⟩
    exact hp.move (.refl sh) rfl rfl (.inr rfl) ⟨hattempts, hheld, .inr rfl⟩
      (by simp [Conn.resume])
  | counted result =>
    have hl : sh.Later (countVerdict sh result).1 := by cases result <;> exact ⟨id, fun _ _ => id⟩
    rcases hpace with ⟨hgone, hattempts, hheld, hlength, hend⟩
    have hall : Answered sh c.pushed := hidle hgone rfl
    cases result with
    | accepted =>
      exact hp.move hl rfl rfl (.inl rfl)
        ⟨hattempts, hheld.later hl, .inr (.inr (hend.later hl))⟩ (fun _ _ => hall)
    | refused =>
      exact hp.move hl rfl rfl (.inl rfl)
        ⟨hgone, hattempts, (held_of_ends hheld hend (.inl rfl)).later hl, hlength⟩ (fun _ _ => hall)
    | failed =>
      exact hp.move hl rfl rfl (.inl rfl)
        ⟨hgone, hattempts, (held_of_ends hheld hend (.inr rfl)).later hl, hlength⟩ (fun _ _ => hall)

theorem Conn.Paced.delivery (hp : c.Paced sh) (h : DeliveryStep config sh c sh' c') :
    c'.Paced sh' := by
  have hl := h.later
  have hpace := hp.pace
  have hidle := hp.idle
  cases h with
  | received p channel pc front working =>
    rw [pc] at hpace hidle
    have hempty : c.block = [] := hpace
    exact hp.move hl rfl rfl (.inl rfl)
      ⟨working, by simp [hempty, Attempts], by simp [hempty, Held], by simp [hempty]⟩ hidle
  | skipped p channel pc front gone =>
    rw [pc] at hpace hidle
    have hempty : c.block = [] := hpace
    exact hp.move hl rfl rfl (.inl rfl)
      ⟨by simp [hempty, Attempts], by simp [hempty, Held], .inr gone⟩ hidle
  | finished pc empty dropped =>
    rw [pc] at hpace hidle
    exact hp.move hl rfl rfl (.inl rfl) hpace hidle
  | delivered p attempt stage _ progress pc step => exact hp.delivered pc step
  | gaveUp p attempt pc cancelled =>
    rw [pc] at hpace hidle
    exact hp.move hl rfl rfl (.inl rfl) ⟨hpace.2.1, hpace.2.2.1.dropLast, .inl cancelled⟩ hidle
  | held p attempt pc running =>
    rw [pc] at hpace hidle
    exact hp.move hl rfl rfl (.inl rfl) hpace hidle
  | woke p attempt pc =>
    rw [pc] at hpace hidle
    rcases hpace with ⟨hgone, hattempts, hheld, rfl⟩
    exact hp.move hl rfl rfl (.inl rfl) ⟨hgone, hattempts, hheld, rfl⟩ hidle
  | abandoned p pc =>
    rw [pc] at hpace hidle
    rcases hpace.later hl with ⟨hattempts, hheld, hend⟩
    exact hp.move hl rfl rfl (.inl rfl) ⟨hattempts, hheld, hend.imp_right .inl⟩ hidle
  | released p pc =>
    rw [pc] at hpace hidle
    exact hp.move hl rfl rfl (.inl rfl) (hpace.later hl) hidle
  | freed p pc =>
    rw [pc] at hpace hidle
    have hlater := hp.later hl
    have hpushed : (c.past ++ [(p, c.block)]).flatMap Prod.snd ++ [] = c.pushed := by
      simp [Conn.pushed]
    refine ⟨?_, rfl, by rw [Conn.pushed, hpushed]; exact hlater.answered,
      by rw [Conn.pushed, hpushed]; exact fun hgone _ => (hidle hgone rfl).later hl⟩
    intro b hb
    rcases List.mem_append.mp hb with hold | hnew
    · exact hlater.past b hold
    · obtain rfl : b = (p, c.block) := by simpa using hnew
      exact hpace.later hl

end Steps

end HyperRuby.Dispatch
