import Mathlib.Data.Int.Log
import RustyTime.Api.Control
import RustyTime.Core.Text
import RustyTime.Daemon.Server

/-!
# The control plane

`rusty_time-daemon/src/control.rs` and, for the client's side of the socket,
`rusty_time-ctl/src/lib.rs`: one request and one answer, each a line of JSON. A mutex is its value
unless it is poisoned; what the clocks read is an input, an `Instant` its seconds. The text of an
address is a parameter.
-/

namespace RustyTime

open Infra Infra.Ieee

namespace Control

/-- `MAX_REQUEST_BYTES`. -/
def maxRequestBytes : Nat := 65536

/-- `MAX_RESPONSE_BYTES`. -/
def maxResponseBytes : Nat := 1048576

/-! ## Tracking -/

/-- What the discipline loop publishes for the control socket. -/
structure TrackingState (R : Type) where
  report : TrackingReport R
  updated : R
  pollIntervalS : F64 R

section

variable {R : Type} [Field R] [LinearOrder R]

/-- `poll_log2_of`: the rounded logarithm of `x` is half that of `2 x²`, rounded down. -/
def pollLog2Of [FloorSemiring R] (pollIntervalS : F64 R) : Int8 :=
  match pollIntervalS with
  | .finite x => if x ≤ 0 then 0 else Int8.ofInt (max (-128) (min 127 (Int.log 2 (2 * x * x) / 2)))
  | .infinite _ => 0
  | .nan => 0

namespace TrackingState

/-- `TrackingState::unsynchronized`. -/
def unsynchronized (now : R) : TrackingState R where
  report :=
    { synchronized := false
      offsetS := .finite 0
      freqPpm := .finite 0
      errorBoundS := .infinite false
      pollLog2 := 0 }
  updated := now
  pollIntervalS := .finite 64

/-- `publish`, which replaces the whole state. -/
def publish [FloorSemiring R] (synchronized : Bool)
    (offsetS freqPpm errorBoundS pollIntervalS : F64 R) (now : R) : TrackingState R where
  report :=
    { synchronized := synchronized
      offsetS := offsetS
      freqPpm := freqPpm
      errorBoundS := errorBoundS
      pollLog2 := pollLog2Of pollIntervalS }
  updated := now
  pollIntervalS := max pollIntervalS (.finite 1)

/-- `STALE_DRIFT_PPM`. -/
def staleDriftPpm : F64 R := .finite 100

/-- `snapshot`. No age is long enough for the bound of a finite report to overflow. -/
def snapshot (t : TrackingState R) (now : R) : TrackingReport R :=
  let ageS : F64 R := .finite (max (now - t.updated) 0)
  let staleAfterS := max (.finite 4 * t.pollIntervalS) (.finite 64)
  { t.report with
    synchronized := t.report.synchronized && !staleAfterS.lt ageS
    errorBoundS := t.report.errorBoundS + ageS * staleDriftPpm * .finite 1e-6 }

end TrackingState

end

/-! ## State -/

/-- `Mutex`. -/
inductive Mutex (α : Type) where
  | healthy (value : α)
  | poisoned

/-- `lock`. -/
def Mutex.lock {α : Type} : Mutex α → Option α
  | healthy value => some value
  | poisoned => none

/-- `ServerState`, with the field that only the control plane reads. -/
structure Server (K R : Type) extends ServerState K (F64 R) where
  startedUnix : UInt64

/-- `ControlState`. -/
structure ControlState (K R : Type) where
  server : Option (Mutex (Server K R))
  tracking : Option (Mutex (TrackingState R))

/-- What the clocks read while one request is answered. -/
structure Readings (R : Type) where
  /-- `Instant::now`. -/
  instant : R
  /-- Unix seconds, none before 1970. -/
  unixS : Option UInt64
  monoS : Option (F64 R)

/-! ## Answers -/

section

variable {K R : Type} [Field R] [LinearOrder R] (address : K → String) (clock : Readings R)

/-- `uptime_s`. -/
def uptimeS (startedUnix : UInt64) : UInt64 :=
  match clock.unixS with
  | none => 0
  | some secs => UInt64.ofNat (secs.toNat - startedUnix.toNat)

/-- The answer to `ServerStats`. -/
def serverStats (guard : Server K R) : ServerStatsReport where
  ntpRequests := UInt64.ofNat guard.clients.stats.requests
  ntpResponses := UInt64.ofNat guard.clients.stats.responses
  droppedRateLimit := UInt64.ofNat guard.clients.stats.droppedRateLimit
  kissOfDeath := UInt64.ofNat guard.clients.stats.kissOfDeath
  interleavedResponses := UInt64.ofNat guard.clients.stats.interleavedResponses
  refused := UInt64.ofNat guard.clients.stats.refused
  clientsTracked := UInt64.ofNat guard.clients.len
  clientsEvicted := UInt64.ofNat guard.clients.stats.evicted
  uptimeS := uptimeS clock guard.startedUnix
  stratum := guard.stratum

/-- How long ago a client was last seen. -/
def lastSeenAgoS (rec : ClientRecord (F64 R)) : F64 R :=
  max (clock.monoS.getD 0 - rec.lastSeen) 0

def clientRow (client : K × ClientRecord (F64 R)) : ClientRow R where
  address := address client.1
  lastSeenAgoS := lastSeenAgoS clock client.2
  requests := UInt64.ofNat client.2.requests
  responses := UInt64.ofNat client.2.responses
  dropped := UInt64.ofNat client.2.dropped
  interleaved := client.2.interleavedNow

/-- The clients an answer lists. -/
def listed (guard : Server K R) (limit : UInt64) : List (K × ClientRecord (F64 R)) :=
  guard.clients.mostRecent (min limit.toNat 4096)

/-- `handle` from the lock of the server on. -/
def handleServer (request : ControlRequest) (state : ControlState K R) : ControlResponse R :=
  match state.server with
  | none => .error "this daemon runs no server; these ops are served by `rtimed serve`"
  | some server =>
    match server.lock with
    | none => .error "server state is poisoned"
    | some guard =>
      match request with
      | .ping => .error "unreachable: handled above"
      | .tracking => .error "unreachable: handled above"
      | .serverStats => .serverStats (serverStats clock guard)
      | .clients limit => .clients ((listed guard limit).map (clientRow address clock))
      | .ntsData => .ntsData guard.ring.keyIds

/-- `handle`. -/
def handle (request : ControlRequest) (state : ControlState K R) : ControlResponse R :=
  if request = .ping then .pong "0.3.2"
  else if request = .tracking then
    match state.tracking with
    | none =>
      .error "this daemon runs no discipline loop; tracking is served by `rtimed sync`"
    | some tracking =>
      match tracking.lock with
      | none => .error "tracking state is poisoned"
      | some guard => .tracking (guard.snapshot clock.instant)
  else handleServer address clock request state

end

/-! ## The socket -/

/-- `read_line` of a reader that takes `limit` bytes: a line with its line feed, or what is left.
Nothing unless it is UTF-8. -/
def readLine (limit : Nat) (stream : List UInt8) : Option String :=
  let bytes := stream.take limit
  fromUtf8 (bytes.take (bytes.findIdx (· == 10) + 1))

/-- The complaint of `read_line`. -/
def invalidUtf8 : String := "stream did not contain valid UTF-8"

section

variable {K R : Type} [Field R] [LinearOrder R] (json : SerdeJson R) (address : K → String)
  (clock : Readings R)

/-- A value's line. -/
def line (j : Json R) : List UInt8 := asBytes (json.toString j ++ "\n")

/-- `serve_connection`: what it writes to the socket for what it reads there. -/
def serveConnection (state : ControlState K R) (stream : List UInt8) :
    Except String (List UInt8) :=
  match readLine maxRequestBytes stream with
  | none => .error invalidUtf8
  | some request =>
    if request = "" then .ok []
    else
      match json.fromStr ControlRequest.ofJson (trim request) with
      | .ok request => .ok (line json (handle address clock request state).toJson)
      | .error e =>
        .ok (line json (ControlResponse.error ("unrecognized request: " ++ e)).toJson)

/-- `exchange`, from the answer on. -/
def exchange (stream : List UInt8) : Except String (ControlResponse R) :=
  match readLine maxResponseBytes stream with
  | none => .error ("reading response: " ++ invalidUtf8)
  | some response =>
    if trim response = "" then .error "daemon closed the connection without answering"
    else
      match json.fromStr ControlResponse.ofJson (trim response) with
      | .ok response => .ok response
      | .error e => .error ("parsing response: " ++ e)

/-- `request`, on a socket that delivers: what the client makes of the daemon's answer. A
connection that fails was closed without an answer. -/
def request (state : ControlState K R) (req : ControlRequest) :
    Except String (ControlResponse R) :=
  match serveConnection json address clock state (line json req.toJson) with
  | .ok stream => exchange json stream
  | .error _ => exchange json []

end

end Control

end RustyTime
