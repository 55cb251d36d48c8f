import Mathlib.Data.List.Basic
import HyperRuby.Library.Transition

/-! # Servers that share a socket path

A starting server binds a temporary path of its own, notes the identity of the
file it finds there and renames it over the shared path. A stopping server looks
at the shared path and unlinks it if the file there has the identity it noted.
Looking and unlinking are two steps of the file system, and the identity of a
file that is gone may be given to a new one.
-/
namespace HyperRuby.SocketFile
open Library

/-- Device and inode number. -/
structure Ident where
  dev : ℕ
  ino : ℕ
  deriving DecidableEq, Repr

/-- The file at the shared path, and the server that installed it. -/
structure Entry where
  owner : ℕ
  ident : Ident
  deriving DecidableEq, Repr

/-- Where a server stands. `recorded` is what it knows of its own file; a server that could
not come up completely leaves while its listener is still open. -/
inductive Stage where
  | idle
  | bound (ident : Ident)
  | identified (ident : Ident) (recorded : Option Ident)
  | aborting (ident : Ident)
  | serving (ident : Ident) (recorded : Option Ident)
  | leaving (ident : Ident) (recorded : Option Ident) (listening : Bool)
  | matched
  | gone
  deriving DecidableEq, Repr

/-- The file that a server keeps in existence by a temporary path or an open listener. -/
def Stage.file : Stage → Option Ident
  | .bound ident | .identified ident _ | .aborting ident | .serving ident _ => some ident
  | .leaving ident _ true => some ident
  | _ => none

/-- The shared path and the servers configured with it. -/
structure Files where
  path : Option Entry
  servers : List Stage
  deriving DecidableEq, Repr

def Files.start (n : ℕ) : Files := ⟨none, List.replicate n .idle⟩

def Files.existing (s : Files) : List Ident :=
  s.path.toList.map Entry.ident ++ s.servers.filterMap Stage.file

/-- The file-system steps of `bind_unix_listener` and `remove_socket_file`. -/
inductive Move where
  | bind (ident : Ident)
  | stat
  | statFails
  | rename
  | renameFails
  | removeTmp
  | stop
  | startFails
  | check
  | unlink
  deriving DecidableEq, Repr

def Files.matches (s : Files) (recorded : Option Ident) : Bool :=
  s.path.any (fun entry => recorded = some entry.ident)

/-- One step of a server: what is at the shared path afterwards, and where the server stands. -/
def Files.move (s : Files) (i : ℕ) : Stage → Move → Option (Option Entry × Stage)
  | .idle, .bind ident => if ident ∈ s.existing then none else some (s.path, .bound ident)
  | .bound ident, .stat => some (s.path, .identified ident (some ident))
  | .bound ident, .statFails => some (s.path, .identified ident none)
  | .identified ident recorded, .rename => some (some ⟨i, ident⟩, .serving ident recorded)
  | .identified ident _, .renameFails => some (s.path, .aborting ident)
  | .aborting _, .removeTmp => some (s.path, .gone)
  | .serving ident recorded, .stop => some (s.path, .leaving ident recorded false)
  | .serving ident recorded, .startFails => some (s.path, .leaving ident recorded true)
  | .leaving _ recorded _, .check =>
    some (s.path, if s.matches recorded then .matched else .gone)
  | .matched, .unlink => some (none, .gone)
  | _, _ => none

def Files.exec (s : Files) (action : ℕ × Move) : Option Files :=
  s.servers[action.1]?.bind (fun stage =>
    (s.move action.1 stage action.2).map (fun out => ⟨out.1, s.servers.set action.1 out.2⟩))

/-- What a server has noted of a file that it no longer keeps in existence. -/
def Stage.noted : Stage → Option Ident
  | .leaving _ recorded false => recorded
  | _ => none

/-- The identity a server may still act on. -/
def Stage.claim (stage : Stage) : Option Ident := stage.noted.or stage.file

/-- The file that a server is about to rename over the path. -/
def Stage.ready : Stage → Option Ident
  | .identified ident _ => some ident
  | _ => none

/-- What a server has noted is the identity of its own file. -/
def Stage.Faithful : Stage → Prop
  | .identified ident recorded | .serving ident recorded | .leaving ident recorded _ =>
    ∀ noted ∈ recorded, noted = ident
  | _ => True

def Files.Shows (s : Files) (view : Stage → Option Ident) (i : ℕ) (ident : Ident) : Prop :=
  ∃ stage, s.servers[i]? = some stage ∧ view stage = some ident

/-- No file is renamed over the path between another server's look at it and its unlink, and
none that has the identity which a server noted that has closed its listener. -/
def Files.Undisturbed (s : Files) : ℕ × Move → Prop
  | (i, .rename) => .matched ∉ s.servers ∧
    ∀ stage ∈ s.servers, ∀ ident ∈ stage.noted, s.servers[i]?.bind Stage.ready ≠ some ident
  | _ => True

instance (s : Files) : (action : ℕ × Move) → Decidable (s.Undisturbed action)
  | (_, .rename) => inferInstanceAs (Decidable (_ ∧ _))
  | (_, .bind _) | (_, .stat) | (_, .statFails) | (_, .renameFails) | (_, .removeTmp) | (_, .stop)
  | (_, .startFails) | (_, .check) | (_, .unlink) => instDecidableTrue

/-- Everything a step of a server can do. -/
inductive MoveStep (s : Files) (i : ℕ) : Stage → Move → Option Entry → Stage → Prop where
  | bind (ident : Ident) (fresh : ident ∉ s.existing) :
      MoveStep s i .idle (.bind ident) s.path (.bound ident)
  | stat (ident : Ident) :
      MoveStep s i (.bound ident) .stat s.path (.identified ident (some ident))
  | statFails (ident : Ident) :
      MoveStep s i (.bound ident) .statFails s.path (.identified ident none)
  | rename (ident : Ident) (recorded : Option Ident) :
      MoveStep s i (.identified ident recorded) .rename (some ⟨i, ident⟩) (.serving ident recorded)
  | renameFails (ident : Ident) (recorded : Option Ident) :
      MoveStep s i (.identified ident recorded) .renameFails s.path (.aborting ident)
  | removeTmp (ident : Ident) : MoveStep s i (.aborting ident) .removeTmp s.path .gone
  | stop (ident : Ident) (recorded : Option Ident) :
      MoveStep s i (.serving ident recorded) .stop s.path (.leaving ident recorded false)
  | startFails (ident : Ident) (recorded : Option Ident) :
      MoveStep s i (.serving ident recorded) .startFails s.path (.leaving ident recorded true)
  | same (ident noted : Ident) (listening : Bool) (entry : Entry) (found : s.path = some entry)
      (equal : noted = entry.ident) :
      MoveStep s i (.leaving ident (some noted) listening) .check s.path .matched
  | other (ident : Ident) (recorded : Option Ident) (listening : Bool) :
      MoveStep s i (.leaving ident recorded listening) .check s.path .gone
  | unlink : MoveStep s i .matched .unlink none .gone

theorem move_step {s : Files} {i : ℕ} {stage stage' : Stage} {move : Move} {path : Option Entry}
    (h : s.move i stage move = some (path, stage')) : MoveStep s i stage move path stage' := by
  unfold Files.move at h
  split at h
  case h_1 ident =>
    split_ifs at h with hfresh
    cases h
    exact .bind ident hfresh
  case h_9 ident recorded listening =>
    split_ifs at h with hsame
    · cases h
      rcases Option.any_eq_true_iff_get _ _ |>.mp hsame with ⟨hsome, hequal⟩
      obtain rfl : recorded = some (s.path.get hsome).ident := by simpa using hequal
      exact .same ident _ listening _ (Option.some_get hsome).symm rfl
    · cases h
      exact .other ident recorded listening
  case h_11 => cases h
  all_goals
    cases h
    constructor

/-- Identities tell the files that exist apart, and whoever may act on that of the file at the path
has installed it. -/
structure Files.Sound (s : Files) : Prop where
  faithful : ∀ stage ∈ s.servers, stage.Faithful
  distinct : ∀ i j ident, s.Shows Stage.file i ident → s.Shows Stage.file j ident → i = j
  owned : ∀ entry, s.path = some entry → ∀ i, s.Shows Stage.claim i entry.ident → i = entry.owner
  unlinks : ∀ entry, s.path = some entry → ∀ i, s.servers[i]? = some .matched → i = entry.owner

section Steps
variable {s : Files} {i : ℕ} {stage stage' : Stage} {move : Move} {path : Option Entry}

theorem MoveStep.faithful (h : MoveStep s i stage move path stage') (hf : stage.Faithful) :
    stage'.Faithful := by
  cases h <;> simp_all [Stage.Faithful]

theorem MoveStep.file (h : MoveStep s i stage move path stage') {ident : Ident}
    (hfile : stage'.file = some ident) :
    stage.file = some ident ∨ move = .bind ident ∧ ident ∉ s.existing := by
  cases h with
  | bind new fresh =>
    obtain rfl : new = ident := by simpa [Stage.file] using hfile
    exact .inr ⟨rfl, fresh⟩
  | stop | removeTmp | same | other | unlink => simp [Stage.file] at hfile
  | stat | statFails | rename | renameFails | startFails => exact .inl hfile

theorem MoveStep.claim (h : MoveStep s i stage move path stage') (hf : stage.Faithful)
    {ident : Ident} (hc : stage'.claim = some ident) :
    stage.claim = some ident ∨ move = .bind ident ∧ ident ∉ s.existing := by
  cases h with
  | bind new fresh =>
    obtain rfl : new = ident := by simpa [Stage.claim, Stage.noted, Stage.file] using hc
    exact .inr ⟨rfl, fresh⟩
  | stop own recorded =>
    left
    simp_all [Stage.claim, Stage.noted, Stage.file, Stage.Faithful]
  | removeTmp | same | other | unlink => simp [Stage.claim, Stage.noted, Stage.file] at hc
  | stat | statFails | rename | renameFails | startFails => exact .inl hc

theorem shows_set {view : Stage → Option Ident} {k : ℕ} {ident : Ident} {entry : Option Entry}
    (hc : Files.Shows ⟨entry, s.servers.set i stage'⟩ view k ident) :
    (k = i ∧ view stage' = some ident) ∨ s.Shows view k ident := by
  rcases hc with ⟨st, hk, hview⟩
  rw [List.getElem?_set] at hk
  split_ifs at hk with hi hlt
  · cases hk
    exact .inl ⟨hi.symm, hview⟩
  · exact .inr ⟨st, hk, hview⟩

theorem MoveStep.files (h : MoveStep s i stage move path stage')
    (found : s.servers[i]? = some stage) {k : ℕ} {ident : Ident}
    (hk : Files.Shows ⟨path, s.servers.set i stage'⟩ Stage.file k ident) :
    s.Shows Stage.file k ident ∨ k = i ∧ ident ∉ s.existing := by
  rcases shows_set hk with ⟨rfl, hfile⟩ | hold
  · rcases h.file hfile with hold | ⟨-, hnew⟩
    · exact .inl ⟨stage, found, hold⟩
    · exact .inr ⟨rfl, hnew⟩
  · exact .inl hold

theorem MoveStep.claims (h : MoveStep s i stage move path stage') (hf : stage.Faithful)
    (found : s.servers[i]? = some stage) {k : ℕ} {ident : Ident}
    (hk : Files.Shows ⟨path, s.servers.set i stage'⟩ Stage.claim k ident) :
    s.Shows Stage.claim k ident ∨ move = .bind ident ∧ ident ∉ s.existing := by
  rcases shows_set hk with ⟨rfl, hclaim⟩ | hold
  · exact (h.claim hf hclaim).imp_left (fun hold => ⟨stage, found, hold⟩)
  · exact .inl hold

theorem Files.Shows.existing {k : ℕ} {ident : Ident} (h : s.Shows Stage.file k ident) :
    ident ∈ s.existing := by
  rcases h with ⟨st, hst, hfile⟩
  exact List.mem_append_right _ (List.mem_filterMap.mpr ⟨st, List.mem_of_getElem? hst, hfile⟩)

/-- The file that is renamed over the path is no one's to act on but its server's. -/
theorem Files.Sound.renamed (hs : s.Sound) (ok : s.Undisturbed (i, .rename)) {ident : Ident}
    {recorded : Option Ident} (found : s.servers[i]? = some (.identified ident recorded)) {k : ℕ}
    (hk : s.Shows Stage.claim k ident) : k = i := by
  rcases hk with ⟨st, hst, hclaim⟩
  rcases Option.or_eq_some_iff.mp hclaim with hnoted | ⟨-, hfile⟩
  · exact absurd (by rw [found]; rfl) (ok.2 st (List.mem_of_getElem? hst) ident hnoted)
  · exact hs.distinct k i ident ⟨st, hst, hfile⟩ ⟨_, found, rfl⟩

theorem MoveStep.path_cases (h : MoveStep s i stage move path stage') :
    path = s.path ∨
      (∃ ident recorded, stage = .identified ident recorded ∧ move = .rename ∧
        path = some ⟨i, ident⟩) ∨ path = none := by
  cases h with
  | rename ident recorded => exact .inr (.inl ⟨ident, recorded, rfl, rfl, rfl⟩)
  | unlink => exact .inr (.inr rfl)
  | _ => exact .inl rfl

theorem Stage.Faithful.claim {ident noted : Ident} {listening : Bool}
    (h : (Stage.leaving ident (some noted) listening).Faithful) :
    (Stage.leaving ident (some noted) listening).claim = some noted := by
  cases listening with
  | false => rfl
  | true =>
    rw [h noted rfl]
    rfl

theorem start_sound (n : ℕ) : (Files.start n).Sound := by
  have hidle : ∀ stage ∈ (Files.start n).servers, stage = .idle :=
    fun stage hstage => List.eq_of_mem_replicate hstage
  have hfiles : ∀ i ident, ¬ (Files.start n).Shows Stage.file i ident := by
    rintro i ident ⟨stage, hstage, hfile⟩
    rw [hidle stage (List.mem_of_getElem? hstage)] at hfile
    cases hfile
  refine ⟨?_, fun i _ ident hi => absurd hi (hfiles i ident), ?_, ?_⟩
  · intro stage hstage
    rw [hidle stage hstage]
    trivial
  · rintro entry ⟨⟩
  · rintro entry ⟨⟩

theorem Files.Sound.step (hs : s.Sound) (ok : s.Undisturbed (i, move))
    (found : s.servers[i]? = some stage) (h : MoveStep s i stage move path stage') :
    Files.Sound ⟨path, s.servers.set i stage'⟩ := by
  have hf := hs.faithful stage (List.mem_of_getElem? found)
  refine ⟨forall_mem_set hs.faithful (h.faithful hf), ?_, ?_, ?_⟩
  · intro k l ident hk hl
    rcases h.files found hk with hk | ⟨rfl, hnew⟩
    · rcases h.files found hl with hl | ⟨-, hnew⟩
      · exact hs.distinct k l ident hk hl
      · exact absurd hk.existing hnew
    · rcases h.files found hl with hl | ⟨rfl, -⟩
      · exact absurd hl.existing hnew
      · rfl
  · intro entry hentry k hk
    rcases h.claims hf found hk with hold | ⟨rfl, hnew⟩
    · rcases h.path_cases with hsame | ⟨ident, recorded, rfl, rfl, hrenamed⟩ | hnone
      · exact hs.owned entry (hsame.symm.trans hentry) k hold
      · cases hrenamed.symm.trans hentry
        exact hs.renamed ok found hold
      · cases hnone.symm.trans hentry
    · cases h
      exact absurd (by simp [Files.existing, show s.path = some entry from hentry]) hnew
  · intro entry hentry k hk
    rw [List.getElem?_set] at hk
    split_ifs at hk with hi hlt
    · cases hk
      cases h with
      | same ident noted listening seen hseen hequal =>
        cases hseen.symm.trans hentry
        exact hs.owned entry hseen k ⟨_, hi ▸ found, hequal ▸ hf.claim⟩
    · rcases h.path_cases with hsame | ⟨ident, recorded, -, rfl, -⟩ | hnone
      · exact hs.unlinks entry (hsame.symm.trans hentry) k hk
      · exact absurd (List.mem_of_getElem? hk) ok.1
      · cases hnone.symm.trans hentry

end Steps

/-- The unlink of a server, which follows in any state where its look at the path matched,
removes no other server's file: true of every run in which no rename comes between the two or
brings a file that has a noted identity of one that is gone. -/
theorem unlink_owned (n : ℕ) (s : Files)
    (h : Reached Files.exec Files.Undisturbed (.start n) s) (i : ℕ) (entry : Entry)
    (hmatched : s.servers[i]? = some .matched) (hentry : s.path = some entry) :
    entry.owner = i := by
  have hsound : s.Sound := by
    refine h.invariant Files.Sound (start_sound n) ?_
    rintro s ⟨i, move⟩ t _ ok hs he
    rcases Option.bind_eq_some_iff.mp he with ⟨stage, hfound, he⟩
    rcases Option.map_eq_some_iff.mp he with ⟨⟨path, stage'⟩, hmove, rfl⟩
    exact hs.step ok hfound (move_step hmove)
  exact (hsound.unlinks entry hentry i hmatched).symm

/-- A second server takes the path over while the first one is still serving; the second stops,
and a third gets the identity of the first one's file while that one has yet to look. -/
theorem unlink_owned_takeover :
    ∃ s : Files, Reached Files.exec Files.Undisturbed (.start 3) s ∧
      (s.servers[1]? = some .matched ∧ s.path.isSome = true) ∧
      ∀ entry, s.path = some entry → entry.owner = 1 := by
  have hrun : ∃ s : Files, Reached Files.exec Files.Undisturbed (.start 3) s ∧
      (s.servers[1]? = some .matched ∧ s.path.isSome = true) :=
    exists_reached
      [(0, .bind ⟨0, 7⟩), (0, .stat), (0, .rename), (1, .bind ⟨0, 8⟩), (1, .stat), (1, .rename),
        (0, .stop), (2, .bind ⟨0, 7⟩), (0, .check), (1, .stop), (1, .check)]
      (by decide +kernel)
  rcases hrun with ⟨s, hs, hmatched⟩
  exact ⟨s, hs, hmatched, fun entry hentry => unlink_owned 3 s hs 1 entry hmatched.1 hentry⟩

/-- The second server renames its file over the path between the first one's look and its
unlink: the unlink removes the second server's socket. -/
theorem unlink_removes_takeover :
    ∃ s t : Files, Reached Files.exec (fun _ _ => True) (.start 2) s ∧
      s.path = some ⟨1, ⟨0, 8⟩⟩ ∧ s.exec (0, .unlink) = some t ∧ t.path = none := by
  have hrun : ∃ s : Files, Reached Files.exec (fun _ _ => True) (.start 2) s ∧
      s = ⟨some ⟨1, ⟨0, 8⟩⟩, [.matched, .serving ⟨0, 8⟩ (some ⟨0, 8⟩)]⟩ :=
    exists_reached
      [(0, .bind ⟨0, 7⟩), (0, .stat), (0, .rename), (0, .stop), (0, .check), (1, .bind ⟨0, 8⟩),
        (1, .stat), (1, .rename)]
      (by decide +kernel)
  rcases hrun with ⟨s, hs, rfl⟩
  exact ⟨_, _, hs, rfl, rfl, rfl⟩

end HyperRuby.SocketFile
