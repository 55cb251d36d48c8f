import HyperRuby.Library.Fallible
import Mathlib.Logic.Function.Basic

/-! # Starting a server

`Server::start` binds and spawns the HTTP listener and then the syslog listeners, one by one.
Each parse, bind and rename may fail, and a failure ends the start with an error. A task that
was spawned goes on: dropping its handle, its tracker or its token does not stop it.
-/
namespace HyperRuby.Startup
open Library Library.Fallible

/-- `trim_start_matches("unix:")`, which trims as often as it matches. -/
def trimUnix : List Char → List Char
  | 'u' :: 'n' :: 'i' :: 'x' :: ':' :: rest => trimUnix rest
  | address => address

inductive BindAddress where
  | unix (path : String)
  | tcp (address : String)
  deriving DecidableEq, Repr

def BindAddress.ofString (address : String) : BindAddress :=
  if "unix:".toList <+: address.toList then .unix (String.ofList (trimUnix address.toList))
  else .tcp address

structure SyslogConfig where
  streamPath : Option String
  streamBind : Option String
  udpBind : Option String
  deriving DecidableEq, Repr

def SyslogConfig.enabled (config : SyslogConfig) : Bool :=
  config.streamPath.isSome || config.streamBind.isSome || config.udpBind.isSome

structure Config where
  bindAddress : String
  syslog : SyslogConfig
  deriving DecidableEq, Repr

/-- The steps of one Unix listener that fail. The file is not noted when it cannot be looked at,
and stays when it cannot be unlinked. -/
structure UnixFaults where
  bind : Option String
  stat : Bool
  rename : Option String
  unlink : Bool
  deriving DecidableEq, Repr

/-- The steps of one TCP or UDP listener that fail; a parsed address has its own text. -/
structure InetFaults where
  parse : Except String String
  bind : Option String
  deriving Repr

structure Faults where
  runtime : Option String
  httpUnix : UnixFaults
  httpTcp : InetFaults
  streamPath : UnixFaults
  streamBind : InetFaults
  udpBind : InetFaults
  deriving Repr

/-- The errors of `start`, with the text of the step that failed. -/
inductive StartError where
  | runtime (reason : String)
  | bindUnix (tmpPath reason : String)
  | install (path reason : String)
  | invalidAddress (address reason : String)
  | bindTcp (address reason : String)
  | syslog (reason : String)
  deriving DecidableEq, Repr

inductive Task where
  | http
  | streamListener
  | tcpListener
  | datagrams
  deriving DecidableEq, Repr

/-- The identity of a socket file: one that this call bound, or one that was there before. -/
inductive Ident where
  | http
  | syslog
  | earlier (id : ℕ)
  deriving DecidableEq, Repr

/-- The running tasks of the call, the socket files at their paths, and the socket that
`start_listeners` has noted. -/
structure World where
  tasks : List Task
  files : String → Option Ident
  socket : Option String × Option Ident

namespace World

def before (files : String → Option ℕ) : World :=
  ⟨[], fun path => (files path).map .earlier, (none, none)⟩

def spawn (task : Task) (w : World) : World := { w with tasks := w.tasks ++ [task] }

def place (path : String) (ident : Ident) (w : World) : World :=
  { w with files := Function.update w.files path (some ident) }

def remove (path : String) (fails : Bool) (w : World) : World :=
  if fails then w else { w with files := Function.update w.files path none }

def rename (source target : String) (w : World) : World :=
  { w with files := Function.update (Function.update w.files target (w.files source)) source none }

def note (path : String) (ident : Option Ident) (w : World) : World :=
  { w with socket := (some path, ident) }

/-- `remove_socket_file`, which unlinks the file it noted and no other. -/
def removeSocketFile (fails : Bool) (w : World) : World :=
  match w.socket with
  | (some path, some ident) => if w.files path = some ident then w.remove path fails else w
  | _ => w

end World

/-- The process id and the sequence number of the temporary path. -/
structure Temporary where
  pid : ℕ
  seq : ℕ
  deriving DecidableEq, Repr

def Temporary.path (tmp : Temporary) (path : String) : String :=
  path ++ "." ++ toString tmp.pid ++ "." ++ toString tmp.seq ++ ".tmp"

section Start
variable {ε : Type}

/-- Bind the temporary path and rename it over the target. -/
def bindUnix (tmp : Temporary) (path : String) (ident : Ident) (faults : UnixFaults)
    (bindError installError : String → ε) : Fallible World ε (Option Ident) := do
  attempt faults.bind bindError
  modify (World.place (tmp.path path) ident)
  match faults.rename with
  | some reason =>
    modify (World.remove (tmp.path path) faults.unlink)
    throw (installError reason)
  | none =>
    modify (World.rename (tmp.path path) path)
    return if faults.stat then none else some ident

def bindInet (faults : InetFaults) (parseError : String → ε) (bindError : String → String → ε) :
    Fallible World ε Unit :=
  match faults.parse with
  | .error reason => throw (parseError reason)
  | .ok address => attempt faults.bind (bindError address)

end Start

def bindHttp (tmp : Temporary) (faults : Faults) : BindAddress → Fallible World StartError Unit
  | .unix path => do
    let _ ← bindUnix tmp path .http faults.httpUnix (.bindUnix (tmp.path path)) (.install path)
  | .tcp address => bindInet faults.httpTcp (.invalidAddress address) .bindTcp

def startStreamPath (tmp : Temporary) (faults : Faults) :
    Option String → Fallible World String Unit
  | none => pure ()
  | some path => do
    let ident ← bindUnix tmp path .syslog faults.streamPath id id
    modify (World.note path ident)
    modify (World.spawn .streamListener)

def startInet (faults : InetFaults) (task : Task) : Option String → Fallible World String Unit
  | none => pure ()
  | some _ => do
    bindInet faults id fun _ => id
    modify (World.spawn task)

def startListeners (tmp : Temporary) (config : SyslogConfig) (faults : Faults) :
    Fallible World String Unit := do
  startStreamPath tmp faults config.streamPath
  startInet faults.streamBind .tcpListener config.streamBind
  startInet faults.udpBind .datagrams config.udpBind

/-- `syslog::start`, which removes the socket file when a listener did not come up. -/
def startSyslog (tmp : Temporary) (config : SyslogConfig) (faults : Faults) :
    Fallible World StartError Unit :=
  (startListeners tmp config faults).undoing
    (World.removeSocketFile faults.streamPath.unlink) .syslog

def start (httpTmp syslogTmp : Temporary) (config : Config) (faults : Faults) :
    Fallible World StartError Unit := do
  attempt faults.runtime .runtime
  bindHttp httpTmp faults (.ofString config.bindAddress)
  modify (World.spawn .http)
  if config.syslog.enabled then
    startSyslog syslogTmp config.syslog faults

/-! ### Which starts succeed -/

def UnixFaults.ready (faults : UnixFaults) : Bool := faults.bind.isNone && faults.rename.isNone

def InetFaults.ready (faults : InetFaults) : Bool := faults.parse.isOk && faults.bind.isNone

def Faults.httpBinds (faults : Faults) : BindAddress → Bool
  | .unix _ => faults.httpUnix.ready
  | .tcp _ => faults.httpTcp.ready

def httpReady (config : Config) (faults : Faults) : Bool :=
  faults.runtime.isNone && faults.httpBinds (.ofString config.bindAddress)

/-- Every configured syslog listener comes up. -/
def syslogReady (config : SyslogConfig) (faults : Faults) : Bool :=
  (config.streamPath.isNone || faults.streamPath.ready) &&
    ((config.streamBind.isNone || faults.streamBind.ready) &&
      (config.udpBind.isNone || faults.udpBind.ready))

theorem syslogReady_of_not_enabled {config : SyslogConfig} (faults : Faults)
    (h : config.enabled = false) : syslogReady config faults = true := by
  simp only [SyslogConfig.enabled, Bool.or_eq_false_iff, Option.isSome_eq_false_iff] at h
  simp [syslogReady, h]

section Decided
variable {ε : Type}

theorem bindUnix_decided (tmp : Temporary) (path : String) (ident : Ident) (faults : UnixFaults)
    (bindError installError : String → ε) :
    Decided (bindUnix tmp path ident faults bindError installError) faults.ready := by
  apply (decided_attempt faults.bind bindError).bind
  intro _
  rw [← Bool.true_and faults.rename.isNone]
  apply (decided_modify _).bind
  intro _ w
  cases faults.rename with
  | none => rfl
  | some reason => rfl

theorem bindInet_decided (faults : InetFaults) (parseError : String → ε)
    (bindError : String → String → ε) :
    Decided (bindInet faults parseError bindError) faults.ready := by
  intro w
  unfold bindInet InetFaults.ready
  cases faults.parse with
  | error reason => rfl
  | ok address => exact decided_attempt faults.bind (bindError address) w

end Decided

theorem bindHttp_decided (tmp : Temporary) (faults : Faults) (address : BindAddress) :
    Decided (bindHttp tmp faults address) (faults.httpBinds address) := by
  cases address with
  | unix path =>
    rw [Faults.httpBinds, ← Bool.and_true faults.httpUnix.ready]
    exact (bindUnix_decided tmp path .http faults.httpUnix _ _).bind fun _ => decided_pure ()
  | tcp address => exact bindInet_decided faults.httpTcp _ _

theorem startStreamPath_decided (tmp : Temporary) (faults : Faults) (path : Option String) :
    Decided (startStreamPath tmp faults path) (path.isNone || faults.streamPath.ready) := by
  cases path with
  | none => exact decided_pure ()
  | some path =>
    rw [Option.isNone_some, Bool.false_or, ← Bool.and_true faults.streamPath.ready]
    apply (bindUnix_decided tmp path .syslog faults.streamPath id id).bind
    intro ident
    exact (decided_modify (World.note path ident)).bind fun _ => decided_modify _

theorem startInet_decided (faults : InetFaults) (task : Task) (address : Option String) :
    Decided (startInet faults task address) (address.isNone || faults.ready) := by
  cases address with
  | none => exact decided_pure ()
  | some address =>
    rw [Option.isNone_some, Bool.false_or, ← Bool.and_true faults.ready]
    exact (bindInet_decided faults id _).bind fun _ => decided_modify _

theorem startListeners_decided (tmp : Temporary) (config : SyslogConfig) (faults : Faults) :
    Decided (startListeners tmp config faults) (syslogReady config faults) := by
  apply (startStreamPath_decided tmp faults config.streamPath).bind
  intro _
  apply (startInet_decided faults.streamBind .tcpListener config.streamBind).bind
  intro _
  exact startInet_decided faults.udpBind .datagrams config.udpBind

theorem start_decided (httpTmp syslogTmp : Temporary) (config : Config) (faults : Faults) :
    Decided (start httpTmp syslogTmp config faults)
      (httpReady config faults && syslogReady config.syslog faults) := by
  unfold httpReady
  rw [Bool.and_assoc]
  apply (decided_attempt faults.runtime StartError.runtime).bind
  intro _
  apply (bindHttp_decided httpTmp faults _).bind
  intro _
  rw [← Bool.true_and (syslogReady config.syslog faults)]
  apply (decided_modify _).bind
  intro _
  by_cases henabled : config.syslog.enabled
  · rw [if_pos henabled]
    exact (startListeners_decided syslogTmp config.syslog faults).undoing _ _
  · rw [if_neg henabled, syslogReady_of_not_enabled faults (Bool.not_eq_true _ ▸ henabled)]
    exact decided_pure _

end HyperRuby.Startup
