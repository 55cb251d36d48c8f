import HyperRuby.Startup.Listeners

/-! # Failed starts

An error of the HTTP listener comes before anything is spawned, and leaves nothing. An error of
a syslog listener comes after the HTTP listener was spawned: the socket file of the Unix syslog
listener is removed, and every accept loop that was spawned runs on.
-/
namespace HyperRuby.Startup
open Library Library.Fallible

theorem tmpPath_ne (tmp : Temporary) (path : String) : tmp.path path ≠ path := by
  intro h
  have hlen := congrArg String.length h
  simp only [Temporary.path, String.length_append] at hlen
  have htmp : ".tmp".length = 4 := rfl
  omega

/-- Of a Unix listener that did not come up, the temporary file is all that may stay. -/
theorem bindUnix_failed {ε : Type} (tmp : Temporary) (path : String) (ident : Ident)
    {faults : UnixFaults} (bindError installError : String → ε) (h : faults.ready = false)
    (w : World) :
    (bindUnix tmp path ident faults bindError installError).after w = w ∨
      (bindUnix tmp path ident faults bindError installError).after w =
        (w.place (tmp.path path) ident).remove (tmp.path path) faults.unlink := by
  simp only [bindUnix]
  cases hb : faults.bind with
  | some reason => exact .inl rfl
  | none =>
    cases hr : faults.rename with
    | some reason => exact .inr rfl
    | none => simp [UnixFaults.ready, hb, hr] at h

/-- A socket file of this call at the path it was to be installed at. -/
def Installed (config : Config) (w : World) : Prop :=
  (∃ path, BindAddress.ofString config.bindAddress = .unix path ∧ w.files path = some .http) ∨
    ∃ path, config.syslog.streamPath = some path ∧ w.files path = some .syslog

def LeavesNothing (config : Config) (w : World) : Prop := w.tasks = [] ∧ ¬ Installed config w

theorem temporary_files {tmp path : String} (hne : path ≠ tmp) (ident : Ident) (fails : Bool)
    (w : World) : ((w.place tmp ident).remove tmp fails).files path = w.files path := by
  cases fails <;> simp [World.place, World.remove, hne]

theorem temporary_file (tmp : String) (ident : Ident) (fails : Bool) (w : World) :
    ((w.place tmp ident).remove tmp fails).files tmp = if fails then some ident else none := by
  cases fails <;> simp [World.place, World.remove]

theorem LeavesNothing.temporary {config : Config} {w : World} {path : String}
    (h : LeavesNothing config w) (haddress : BindAddress.ofString config.bindAddress = .unix path)
    (tmp : Temporary) (fails : Bool) :
    LeavesNothing config ((w.place (tmp.path path) .http).remove (tmp.path path) fails) := by
  constructor
  · cases fails <;> exact h.1
  · intro hi
    apply h.2
    rcases hi with ⟨p, hp, hf⟩ | ⟨p, hp, hf⟩
    · have hne : p ≠ tmp.path path := by
        rw [haddress] at hp
        cases hp
        exact (tmpPath_ne tmp path).symm
      rw [temporary_files hne] at hf
      exact .inl ⟨p, hp, hf⟩
    · by_cases hne : p = tmp.path path
      · rw [hne, temporary_file] at hf
        cases fails <;> cases hf
      · rw [temporary_files hne] at hf
        exact .inr ⟨p, hp, hf⟩

theorem bindInet_keeps {ε : Type} (P : World → Prop) (faults : InetFaults)
    (parseError : String → ε) (bindError : String → String → ε) :
    Keeps P (bindInet faults parseError bindError) := by
  unfold bindInet
  cases faults.parse with
  | error reason => exact keeps_throw _
  | ok address => exact keeps_attempt _ _

theorem bindHttp_failed {config : Config} {faults : Faults} {w : World} (tmp : Temporary)
    (h : faults.httpBinds (.ofString config.bindAddress) = false) (hw : LeavesNothing config w) :
    LeavesNothing config ((bindHttp tmp faults (.ofString config.bindAddress)).after w) := by
  cases haddress : BindAddress.ofString config.bindAddress with
  | unix path =>
    rw [haddress] at h
    have hready : faults.httpUnix.ready = false := h
    have hd := bindUnix_decided tmp path .http faults.httpUnix
      (StartError.bindUnix (tmp.path path)) (.install path)
    rw [hready] at hd
    unfold bindHttp
    rw [hd.after_bind_false]
    rcases bindUnix_failed tmp path .http (StartError.bindUnix (tmp.path path)) (.install path)
      hready w with heq | heq
    · rw [heq]
      exact hw
    · rw [heq]
      exact hw.temporary haddress tmp faults.httpUnix.unlink
  | tcp address => exact bindInet_keeps (LeavesNothing config) faults.httpTcp _ _ w hw

theorem before_leavesNothing (config : Config) (files : String → Option ℕ) :
    LeavesNothing config (World.before files) := by
  constructor
  · rfl
  · intro h
    rcases h with ⟨path, _, h⟩ | ⟨path, _, h⟩ <;>
      simp [World.before] at h

theorem start_http_failed (httpTmp syslogTmp : Temporary) {config : Config} {faults : Faults}
    (h : httpReady config faults = false) {w : World} (hw : LeavesNothing config w) :
    LeavesNothing config ((start httpTmp syslogTmp config faults).after w) := by
  unfold start
  cases hr : faults.runtime with
  | some reason => exact hw
  | none =>
    have hbinds : faults.httpBinds (.ofString config.bindAddress) = false := by
      simpa [httpReady, hr] using h
    have hd := bindHttp_decided httpTmp faults (.ofString config.bindAddress)
    rw [hbinds] at hd
    show LeavesNothing config
      ((bindHttp httpTmp faults (.ofString config.bindAddress) >>= _).after w)
    rw [hd.after_bind_false]
    exact bindHttp_failed httpTmp hbinds hw

/-! ### What a failed syslog start leaves -/

def HttpRuns (w : World) : Prop := Task.http ∈ w.tasks

theorem httpRuns_spawn (task : Task) (w : World) (h : HttpRuns w) : HttpRuns (w.spawn task) :=
  List.mem_append_left _ h

theorem httpRuns_remove (path : String) (fails : Bool) (w : World) (h : HttpRuns w) :
    HttpRuns (w.remove path fails) := by
  cases fails <;> exact h

theorem httpRuns_removeSocketFile (fails : Bool) (w : World) (h : HttpRuns w) :
    HttpRuns (w.removeSocketFile fails) := by
  unfold World.removeSocketFile
  split
  · split
    · exact httpRuns_remove _ fails w h
    · exact h
  · exact h

theorem bindUnix_httpRuns {ε : Type} (tmp : Temporary) (path : String) (ident : Ident)
    (faults : UnixFaults) (bindError installError : String → ε) :
    Keeps HttpRuns (bindUnix tmp path ident faults bindError installError) := by
  refine Keeps.bind (keeps_attempt faults.bind bindError) fun _ => ?_
  refine Keeps.bind (keeps_modify fun _ h => h) fun _ => ?_
  cases faults.rename with
  | some reason =>
    exact Keeps.bind (keeps_modify (httpRuns_remove _ faults.unlink)) fun _ => keeps_throw _
  | none => exact Keeps.bind (keeps_modify fun _ h => h) fun _ => keeps_pure _

theorem startInet_keeps {P : World → Prop} {task : Task} (hspawn : ∀ w, P w → P (w.spawn task))
    (faults : InetFaults) (address : Option String) : Keeps P (startInet faults task address) := by
  cases address with
  | none => exact keeps_pure ()
  | some address =>
    exact Keeps.bind (bindInet_keeps P faults _ _) fun _ => keeps_modify hspawn

theorem startListeners_httpRuns (tmp : Temporary) (config : SyslogConfig) (faults : Faults) :
    Keeps HttpRuns (startListeners tmp config faults) := by
  refine Keeps.bind ?_ fun _ => Keeps.bind (startInet_keeps (httpRuns_spawn _) _ _) fun _ =>
    startInet_keeps (httpRuns_spawn _) _ _
  cases config.streamPath with
  | none => exact keeps_pure ()
  | some path =>
    refine Keeps.bind (bindUnix_httpRuns tmp path .syslog faults.streamPath id id) fun ident => ?_
    exact Keeps.bind (keeps_modify fun _ h => h) fun _ => keeps_modify (httpRuns_spawn _)

theorem start_httpRuns (httpTmp syslogTmp : Temporary) {config : Config} {faults : Faults}
    (h : httpReady config faults = true) (w : World) :
    HttpRuns ((start httpTmp syslogTmp config faults).after w) := by
  simp only [httpReady, Bool.and_eq_true, Option.isNone_iff_eq_none] at h
  have hd := bindHttp_decided httpTmp faults (.ofString config.bindAddress)
  rw [h.2] at hd
  unfold start
  rw [h.1]
  show HttpRuns ((bindHttp httpTmp faults (.ofString config.bindAddress) >>= _).after w)
  rcases hd.after_bind_true _ w with ⟨_, heq⟩
  rw [heq]
  have hrest : Keeps HttpRuns
      (if config.syslog.enabled then startSyslog syslogTmp config.syslog faults else pure ()) := by
    by_cases henabled : config.syslog.enabled
    · rw [if_pos henabled]
      exact (startListeners_httpRuns syslogTmp config.syslog faults).undoing
        (httpRuns_removeSocketFile _) StartError.syslog
    · rw [if_neg henabled]
      exact keeps_pure ()
  exact hrest _ (List.mem_append_right _ (List.mem_singleton_self _))

/-! ### The socket file of the syslog listener -/

/-- The file at the path is noted, or none of this call is there. -/
def Noted (path : String) (w : World) : Prop :=
  w.socket = (some path, some .syslog) ∨
    w.socket = (none, none) ∧ w.files path ≠ some .syslog

theorem startStreamPath_noted (tmp : Temporary) {faults : Faults} (path : String) {w : World}
    (hstat : faults.streamPath.stat = false) (hsocket : w.socket = (none, none))
    (hw : w.files path ≠ some .syslog) :
    Noted path ((startStreamPath tmp faults (some path)).after w) := by
  have hd := bindUnix_decided tmp path .syslog faults.streamPath (id : String → String) id
  cases hready : faults.streamPath.ready with
  | true =>
    simp only [UnixFaults.ready, Bool.and_eq_true, Option.isNone_iff_eq_none] at hready
    left
    simp only [startStreamPath, bindUnix, hready.1, hready.2, hstat]
    rfl
  | false =>
    right
    rw [hready] at hd
    unfold startStreamPath
    rw [hd.after_bind_false]
    rcases bindUnix_failed tmp path .syslog (id : String → String) id hready w with heq | heq
    · rw [heq]
      exact ⟨hsocket, hw⟩
    · rw [heq]
      constructor
      · cases faults.streamPath.unlink <;> exact hsocket
      · rw [temporary_files (tmpPath_ne tmp path).symm]
        exact hw

theorem Noted.removeSocketFile {path : String} {w : World} (h : Noted path w) :
    (w.removeSocketFile false).files path ≠ some .syslog := by
  rcases h with hsocket | ⟨hsocket, hw⟩
  · by_cases hfile : w.files path = some .syslog
    · simp [World.removeSocketFile, hsocket, hfile, World.remove]
    · simp [World.removeSocketFile, hsocket, hfile]
  · simpa [World.removeSocketFile, hsocket] using hw

/-- A failed syslog start leaves no socket file of its own at the path. -/
theorem startSyslog_failed (tmp : Temporary) {config : SyslogConfig} {faults : Faults}
    {path : String} {w : World} (hpath : config.streamPath = some path)
    (hready : syslogReady config faults = false) (hstat : faults.streamPath.stat = false)
    (hunlink : faults.streamPath.unlink = false) (hsocket : w.socket = (none, none))
    (hw : w.files path ≠ some .syslog) :
    ((startSyslog tmp config faults).after w).files path ≠ some .syslog := by
  have hnoted : Noted path ((startListeners tmp config faults).after w) := by
    have hrest (_ : Unit) : Keeps (Noted path) (do
        startInet faults.streamBind .tcpListener config.streamBind
        startInet faults.udpBind .datagrams config.udpBind) :=
      Keeps.bind (startInet_keeps (fun _ h => h) _ _) fun _ => startInet_keeps (fun _ h => h) _ _
    have hfirst := startStreamPath_noted tmp path hstat hsocket hw
    unfold startListeners
    rw [hpath, after_bind]
    cases (startStreamPath tmp faults (some path)).outcome w with
    | ok _ => exact hrest () _ hfirst
    | error _ => exact hfirst
  have hd := startListeners_decided tmp config faults w
  rw [hready] at hd
  unfold startSyslog
  rw [after_undoing, hunlink]
  cases houtcome : (startListeners tmp config faults).outcome w with
  | ok _ => rw [houtcome] at hd; cases hd
  | error _ => exact hnoted.removeSocketFile

/-! ### Every start -/

/-- A start leaves nothing behind on an error exactly when the HTTP listener did not come up or
the syslog listeners all did. -/
theorem start_leavesNothing_iff (httpTmp syslogTmp : Temporary) (config : Config)
    (faults : Faults) (files : String → Option ℕ) :
    (∀ error, (start httpTmp syslogTmp config faults).outcome (.before files) = .error error →
      LeavesNothing config ((start httpTmp syslogTmp config faults).after (.before files))) ↔
      httpReady config faults = false ∨ syslogReady config.syslog faults = true := by
  have hd := start_decided httpTmp syslogTmp config faults (.before files)
  cases hhttp : httpReady config faults with
  | false =>
    have hleaves := start_http_failed httpTmp syslogTmp hhttp (before_leavesNothing config files)
    simp [hleaves]
  | true =>
    have hruns := start_httpRuns httpTmp syslogTmp hhttp (.before files)
    rw [hhttp, Bool.true_and] at hd
    cases houtcome : (start httpTmp syslogTmp config faults).outcome (.before files) with
    | ok _ =>
      rw [houtcome] at hd
      simp [← hd, Except.isOk, Except.toBool]
    | error error =>
      -- The accept loop is among the tasks, so the list is not empty.
      rw [houtcome] at hd
      have hnot : ¬ LeavesNothing config
          ((start httpTmp syslogTmp config faults).after (.before files)) := by
        intro hleaves
        rw [HttpRuns, hleaves.1] at hruns
        cases hruns
      simp [← hd, hnot, Except.isOk, Except.toBool]

/-- An invalid TCP address for syslog: both accept loops that were spawned before it run on, and
the HTTP socket file stays. -/
def invalidStreamBind : Config :=
  ⟨"unix:/run/http.sock", ⟨some "/run/syslog.sock", some "localhost", none⟩⟩

def invalidStreamBindFaults : Faults :=
  { runtime := none
    httpUnix := ⟨none, false, none, false⟩
    httpTcp := ⟨.error "invalid socket address syntax", none⟩
    streamPath := ⟨none, false, none, false⟩
    streamBind := ⟨.error "invalid socket address syntax", none⟩
    udpBind := ⟨.error "invalid socket address syntax", none⟩ }

theorem start_leaves_http :
    (start ⟨7, 0⟩ ⟨7, 0⟩ invalidStreamBind invalidStreamBindFaults).outcome
        (.before fun _ => none) = .error (.syslog "invalid socket address syntax") ∧
      ((start ⟨7, 0⟩ ⟨7, 0⟩ invalidStreamBind invalidStreamBindFaults).after
        (.before fun _ => none)).tasks = [.http, .streamListener] ∧
      ((start ⟨7, 0⟩ ⟨7, 0⟩ invalidStreamBind invalidStreamBindFaults).after
        (.before fun _ => none)).files "/run/http.sock" = some .http := by
  refine ⟨rfl, rfl, rfl⟩

end HyperRuby.Startup
