import HyperRuby.Library.Settings
import HyperRuby.Dispatch.Credits

/-! # Configuring a server

`Server::configure` reads its keys out of a Ruby hash in a fixed order and writes them into the
configuration of the server as it goes. A value of the wrong kind ends the call with an error,
and the keys in front of it have been taken over. What `try_convert` makes of a Ruby value is
left open.
-/
namespace HyperRuby.Configure
open Framing Library Library.Setting

/-- `Semaphore::MAX_PERMITS` on a machine with 64-bit words. -/
def maxPermits : ℕ := (2 ^ 64 - 1) >>> 3

/-- `clamp(1, Semaphore::MAX_PERMITS)`. -/
def clampPermits (n : UInt64) : { permits : ℕ // 1 ≤ permits ∧ permits ≤ maxPermits } :=
  ⟨max 1 (min n.toNat maxPermits), le_max_left _ _,
    max_le (by decide) (min_le_right _ _)⟩

def atLeastOne (n : UInt64) : { size : ℕ // 1 ≤ size } := ⟨max n.toNat 1, le_max_right _ _⟩

structure SyslogConfig where
  streamPath : Option String
  streamBind : Option String
  udpBind : Option String
  proxyProtocol : Bool
  proxyHeaderTimeout : UInt64
  maxFrameBytes : UInt64
  maxPending : { permits : ℕ // 1 ≤ permits ∧ permits ≤ maxPermits }
  maxPendingPerConnection : { size : ℕ // 1 ≤ size }
  maxConnections : UInt64
  idleTimeout : UInt64
  udpMaxDatagramBytes : { size : ℕ // 1 ≤ size }
  udpSoRcvbuf : Option UInt64
  workRatio : UInt32

structure ServerConfig where
  bindAddress : String
  tokioThreads : Option UInt64
  debug : Bool
  recvTimeout : UInt64
  channelCapacity : UInt64
  sendTimeout : UInt64
  maxConnectionAge : Option UInt64
  syslog : SyslogConfig

def SyslogConfig.new : SyslogConfig where
  streamPath := none
  streamBind := none
  udpBind := none
  proxyProtocol := false
  proxyHeaderTimeout := 5000
  maxFrameBytes := 102400
  maxPending := ⟨1000, by decide, by decide⟩
  maxPendingPerConnection := ⟨64, by decide⟩
  maxConnections := 10000
  idleTimeout := 0
  udpMaxDatagramBytes := ⟨65536, by decide⟩
  udpSoRcvbuf := none
  workRatio := 4

def ServerConfig.new : ServerConfig where
  bindAddress := "127.0.0.1:3000"
  tokioThreads := none
  debug := false
  recvTimeout := 30000
  channelCapacity := 5000
  sendTimeout := 1000
  maxConnectionAge := none
  syslog := .new

/-- `try_convert` for the types that the configuration uses. -/
structure TryConvert (Value Error : Type) where
  string : Value → Except Error String
  bool : Value → Except Error Bool
  u32 : Value → Except Error UInt32
  u64 : Value → Except Error UInt64
  usize : Value → Except Error UInt64

section Keys
variable {Value Error : Type} (convert : TryConvert Value Error)

def serverKeys : List (Setting String Value Error ServerConfig) :=
  [ of "bind_address" convert.string (fun v c => { c with bindAddress := v }),
    of "tokio_threads" convert.usize (fun v c => { c with tokioThreads := some v }),
    of "debug" convert.bool (fun v c => { c with debug := v }),
    of "recv_timeout" convert.u64 (fun v c => { c with recvTimeout := v }),
    of "channel_capacity" convert.usize (fun v c => { c with channelCapacity := v }),
    of "send_timeout" convert.u64 (fun v c => { c with sendTimeout := v }),
    of "max_connection_age" convert.u64 (fun v c => { c with maxConnectionAge := some v }) ]

def syslogKey {τ : Type} (key : String) (convert : Value → Except Error τ)
    (store : τ → SyslogConfig → SyslogConfig) : Setting String Value Error ServerConfig :=
  of key convert (fun v c => { c with syslog := store v c.syslog })

def syslogKeys : List (Setting String Value Error ServerConfig) :=
  [ syslogKey "syslog_stream_path" convert.string (fun v c => { c with streamPath := some v }),
    syslogKey "syslog_stream_bind" convert.string (fun v c => { c with streamBind := some v }),
    syslogKey "syslog_udp_bind" convert.string (fun v c => { c with udpBind := some v }),
    syslogKey "syslog_proxy_protocol" convert.bool (fun v c => { c with proxyProtocol := v }),
    syslogKey "syslog_proxy_header_timeout" convert.u64
      (fun v c => { c with proxyHeaderTimeout := v }),
    syslogKey "syslog_max_frame_bytes" convert.usize (fun v c => { c with maxFrameBytes := v }),
    syslogKey "syslog_max_pending" convert.usize
      (fun v c => { c with maxPending := clampPermits v }),
    syslogKey "syslog_max_pending_per_connection" convert.usize
      (fun v c => { c with maxPendingPerConnection := atLeastOne v }),
    syslogKey "syslog_max_connections" convert.u64 (fun v c => { c with maxConnections := v }),
    syslogKey "syslog_idle_timeout_ms" convert.u64 (fun v c => { c with idleTimeout := v }),
    syslogKey "syslog_udp_max_datagram_bytes" convert.usize
      (fun v c => { c with udpMaxDatagramBytes := atLeastOne v }),
    syslogKey "syslog_udp_so_rcvbuf" convert.usize (fun v c => { c with udpSoRcvbuf := some v }),
    syslogKey "syslog_work_ratio" convert.u32 (fun v c => { c with workRatio := v }) ]

/-- All keys, in the order in which `configure` looks them up. -/
def keys : List (Setting String Value Error ServerConfig) :=
  serverKeys convert ++ syslogKeys convert

/-- `Server::configure` on a hash from symbols to values. -/
def configure (hash : String → Option Value) : Fallible ServerConfig Error Unit :=
  readAll hash (keys convert)

theorem keys_independent : Independent (keys convert) where
  keys := by
    change [ "bind_address", "tokio_threads", "debug", "recv_timeout", "channel_capacity",
      "send_timeout", "max_connection_age", "syslog_stream_path", "syslog_stream_bind",
      "syslog_udp_bind", "syslog_proxy_protocol", "syslog_proxy_header_timeout",
      "syslog_max_frame_bytes", "syslog_max_pending", "syslog_max_pending_per_connection",
      "syslog_max_connections", "syslog_idle_timeout_ms", "syslog_udp_max_datagram_bytes",
      "syslog_udp_so_rcvbuf", "syslog_work_ratio"].Nodup
    decide
  overwrites := by
    simp only [keys, serverKeys, syslogKeys, syslogKey, List.cons_append, List.nil_append,
      List.forall_mem_cons, List.not_mem_nil, false_implies, implies_true, and_true]
    repeat' apply And.intro
    all_goals exact overwrites_of (fun _ _ _ => rfl)
  commutes := by
    simp only [keys, serverKeys, syslogKeys, syslogKey, List.cons_append, List.nil_append,
      List.pairwise_cons, List.forall_mem_cons, List.not_mem_nil, false_implies, implies_true,
      List.Pairwise.nil, and_true]
    repeat' apply And.intro
    all_goals exact commutes_of (fun _ _ _ => rfl)

end Keys

/-- The settings of the listener tasks that `start` spawns. -/
def ServerConfig.tasks (config : ServerConfig) : Dispatch.Config where
  limits := ⟨64, config.syslog.maxFrameBytes.toNat, config.syslog.maxFrameBytes.toNat_lt⟩
  maxPending := config.syslog.maxPending
  maxPendingPerConnection := config.syslog.maxPendingPerConnection
  maxConnections := config.syslog.maxConnections.toNat
  idleTimeout := config.syslog.idleTimeout.toNat
  proxyProtocol := config.syslog.proxyProtocol
  udpMaxDatagramBytes := config.syslog.udpMaxDatagramBytes
  streamListeners := config.syslog.streamPath.toList.length + config.syslog.streamBind.toList.length
  datagramListener := config.syslog.udpBind.isSome
  channelCapacity := config.channelCapacity.toNat
  pendingPos := config.syslog.maxPending.property.1
  perConnectionPos := config.syslog.maxPendingPerConnection.property
  datagramPos := config.syslog.udpMaxDatagramBytes.property

def configured {Value Error : Type} (convert : TryConvert Value Error)
    (calls : List (String → Option Value)) : ServerConfig :=
  calls.foldl (fun config hash => (configure convert hash).after config) .new

theorem credits_le {config : Dispatch.Config} {s : Dispatch.System} (h : s.Reachable config) :
    s.shared.credits ≤ config.maxPending := by
  rcases (Dispatch.booked h).balanced with ⟨n, -, hbalanced⟩
  have hpermits := hbalanced.permits
  have hfree : s.shared.pool.free = s.shared.credits := rfl
  omega

/-- Any calls of `configure` leave a new server as one call does that succeeds. That call has,
for each key, the value of the last call in which no value up to this key was of the wrong kind.
Under the configuration they leave, the semaphore of the listeners is never given more permits
than it can hold. -/
theorem configure_merges {Value Error : Type} (convert : TryConvert Value Error)
    (calls : List (String → Option Value)) :
    (∃ hash, (configure convert hash).outcome .new = .ok () ∧
      (configure convert hash).after .new = configured convert calls ∧
      ∀ key value, hash key = some value ↔ ∃ before call after,
        calls = before ++ call :: after ∧ taken (keys convert) call key = some value ∧
        ∀ later ∈ after, taken (keys convert) later key = none) ∧
    ∀ s : Dispatch.System, s.Reachable (configured convert calls).tasks →
      s.shared.credits ≤ maxPermits := by
  constructor
  · rcases readAll_merged (keys_independent convert) calls .new with ⟨houtcome, hafter⟩
    exact ⟨merged (keys convert) calls, houtcome, hafter, fun key value => merged_eq_some⟩
  · intro s hs
    exact (credits_le hs).trans (configured convert calls).syslog.maxPending.property.2

end HyperRuby.Configure
