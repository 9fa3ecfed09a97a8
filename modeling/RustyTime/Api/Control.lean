import RustyTime.Infra.Ieee
import RustyTime.Infra.Json

/-!
# The control plane's operations

`rusty_time-api/src/lib.rs`: the requests and answers of the control socket, with the JSON that
their derived `Serialize` and `Deserialize` make of them. A `usize` is 64 bits wide. An enum
with a tag is read here from an object, as both ends write it; `serde` also reads one from an
array, which is left out. `serde_json` itself is a parameter, its compact texts apart.
-/

namespace RustyTime

open Infra Infra.Ieee

/-! ## Fields -/

section

variable {R : Type}

/-- JSON has no infinity and no NaN. -/
def f64ToJson : F64 R → Json R
  | .finite x => .float x
  | .infinite _ => .null
  | .nan => .null

/-- An integer is a number too. -/
def f64OfJson [IntCast R] : Json R → Option (F64 R)
  | .float x => some (.finite x)
  | .int n => some (.finite n)
  | _ => none

def boolOfJson : Json R → Option Bool
  | .bool b => some b
  | _ => none

def stringOfJson : Json R → Option String
  | .string s => some s
  | _ => none

/-- An integer from `lo` to `hi`. -/
def intOfJson (lo hi : Int) : Json R → Option Int
  | .int n => if lo ≤ n ∧ n ≤ hi then some n else none
  | _ => none

def u64ToJson (n : UInt64) : Json R := .int n.toNat

def u64OfJson (j : Json R) : Option UInt64 :=
  (intOfJson 0 18446744073709551615 j).map fun n => UInt64.ofNat n.toNat

def u32ToJson (n : UInt32) : Json R := .int n.toNat

def u32OfJson (j : Json R) : Option UInt32 :=
  (intOfJson 0 4294967295 j).map fun n => UInt32.ofNat n.toNat

def u8ToJson (n : UInt8) : Json R := .int n.toNat

def u8OfJson (j : Json R) : Option UInt8 :=
  (intOfJson 0 255 j).map fun n => UInt8.ofNat n.toNat

def i8ToJson (n : Int8) : Json R := .int n.toInt

def i8OfJson (j : Json R) : Option Int8 := (intOfJson (-128) 127 j).map Int8.ofInt

def vecOfJson {α : Type} (ofJson : Json R → Option α) : Json R → Option (List α)
  | .array xs => xs.mapM ofJson
  | _ => none

/-- A field of a struct, which is there once. Other fields are ignored. -/
def field {α : Type} (fields : List (String × Json R)) (key : String)
    (ofJson : Json R → Option α) : Option α :=
  match fields.filter fun f => f.1 == key with
  | [(_, x)] => ofJson x
  | _ => none

end

/-! ## Reports -/

/-- `TrackingReport`. -/
structure TrackingReport (R : Type) where
  synchronized : Bool
  offsetS : F64 R
  freqPpm : F64 R
  errorBoundS : F64 R
  pollLog2 : Int8
deriving DecidableEq

/-- `ServerStatsReport`. -/
structure ServerStatsReport where
  ntpRequests : UInt64
  ntpResponses : UInt64
  droppedRateLimit : UInt64
  kissOfDeath : UInt64
  interleavedResponses : UInt64
  refused : UInt64
  clientsTracked : UInt64
  clientsEvicted : UInt64
  uptimeS : UInt64
  stratum : UInt8
deriving DecidableEq

/-- `ClientRow`. -/
structure ClientRow (R : Type) where
  address : String
  lastSeenAgoS : F64 R
  requests : UInt64
  responses : UInt64
  dropped : UInt64
  interleaved : Bool
deriving DecidableEq

namespace TrackingReport

variable {R : Type}

def toFields (r : TrackingReport R) : List (String × Json R) :=
  [("synchronized", .bool r.synchronized),
   ("offset_s", f64ToJson r.offsetS),
   ("freq_ppm", f64ToJson r.freqPpm),
   ("error_bound_s", f64ToJson r.errorBoundS),
   ("poll_log2", i8ToJson r.pollLog2)]

def ofFields [IntCast R] (fields : List (String × Json R)) : Option (TrackingReport R) := do
  return {
    synchronized := ← field fields "synchronized" boolOfJson
    offsetS := ← field fields "offset_s" f64OfJson
    freqPpm := ← field fields "freq_ppm" f64OfJson
    errorBoundS := ← field fields "error_bound_s" f64OfJson
    pollLog2 := ← field fields "poll_log2" i8OfJson }

end TrackingReport

namespace ServerStatsReport

variable {R : Type}

def toFields (r : ServerStatsReport) : List (String × Json R) :=
  [("ntp_requests", u64ToJson r.ntpRequests),
   ("ntp_responses", u64ToJson r.ntpResponses),
   ("dropped_rate_limit", u64ToJson r.droppedRateLimit),
   ("kiss_of_death", u64ToJson r.kissOfDeath),
   ("interleaved_responses", u64ToJson r.interleavedResponses),
   ("refused", u64ToJson r.refused),
   ("clients_tracked", u64ToJson r.clientsTracked),
   ("clients_evicted", u64ToJson r.clientsEvicted),
   ("uptime_s", u64ToJson r.uptimeS),
   ("stratum", u8ToJson r.stratum)]

def ofFields (fields : List (String × Json R)) : Option ServerStatsReport := do
  return {
    ntpRequests := ← field fields "ntp_requests" u64OfJson
    ntpResponses := ← field fields "ntp_responses" u64OfJson
    droppedRateLimit := ← field fields "dropped_rate_limit" u64OfJson
    kissOfDeath := ← field fields "kiss_of_death" u64OfJson
    interleavedResponses := ← field fields "interleaved_responses" u64OfJson
    refused := ← field fields "refused" u64OfJson
    clientsTracked := ← field fields "clients_tracked" u64OfJson
    clientsEvicted := ← field fields "clients_evicted" u64OfJson
    uptimeS := ← field fields "uptime_s" u64OfJson
    stratum := ← field fields "stratum" u8OfJson }

end ServerStatsReport

namespace ClientRow

variable {R : Type}

def toJson (r : ClientRow R) : Json R :=
  .object
    [("address", .string r.address),
     ("last_seen_ago_s", f64ToJson r.lastSeenAgoS),
     ("requests", u64ToJson r.requests),
     ("responses", u64ToJson r.responses),
     ("dropped", u64ToJson r.dropped),
     ("interleaved", .bool r.interleaved)]

def ofFields [IntCast R] (fields : List (String × Json R)) : Option (ClientRow R) := do
  return {
    address := ← field fields "address" stringOfJson
    lastSeenAgoS := ← field fields "last_seen_ago_s" f64OfJson
    requests := ← field fields "requests" u64OfJson
    responses := ← field fields "responses" u64OfJson
    dropped := ← field fields "dropped" u64OfJson
    interleaved := ← field fields "interleaved" boolOfJson }

def ofJson [IntCast R] : Json R → Option (ClientRow R)
  | .object fields => ofFields fields
  | _ => none

end ClientRow

/-! ## Requests and answers -/

/-- `ControlRequest`. -/
inductive ControlRequest where
  | serverStats
  | clients (limit : UInt64)
  | ntsData
  | tracking
  | ping
deriving DecidableEq

namespace ControlRequest

variable {R : Type}

def toJson : ControlRequest → Json R
  | .serverStats => .object [("op", .string "server_stats")]
  | .clients limit => .object [("op", .string "clients"), ("limit", u64ToJson limit)]
  | .ntsData => .object [("op", .string "nts_data")]
  | .tracking => .object [("op", .string "tracking")]
  | .ping => .object [("op", .string "ping")]

def ofTag (fields : List (String × Json R)) (tag : String) : Option ControlRequest :=
  if tag = "server_stats" then some .serverStats
  else if tag = "clients" then (field fields "limit" u64OfJson).map .clients
  else if tag = "nts_data" then some .ntsData
  else if tag = "tracking" then some .tracking
  else if tag = "ping" then some .ping
  else none

def ofJson : Json R → Option ControlRequest
  | .object fields => (field fields "op" stringOfJson).bind (ofTag fields)
  | _ => none

end ControlRequest

/-- `ControlResponse`. -/
inductive ControlResponse (R : Type) where
  | serverStats (report : ServerStatsReport)
  | clients (rows : List (ClientRow R))
  | ntsData (masterKeyIds : List UInt32)
  | tracking (report : TrackingReport R)
  | pong (version : String)
  | error (message : String)
deriving DecidableEq

namespace ControlResponse

variable {R : Type}

def toJson : ControlResponse R → Json R
  | .serverStats report => .object (("result", .string "server_stats") :: report.toFields)
  | .clients rows => .object [("result", .string "clients"), ("rows", .array (rows.map (·.toJson)))]
  | .ntsData ids =>
    .object [("result", .string "nts_data"), ("master_key_ids", .array (ids.map u32ToJson))]
  | .tracking report => .object (("result", .string "tracking") :: report.toFields)
  | .pong version => .object [("result", .string "pong"), ("version", .string version)]
  | .error message => .object [("result", .string "error"), ("message", .string message)]

def ofTag [IntCast R] (fields : List (String × Json R)) (tag : String) :
    Option (ControlResponse R) :=
  if tag = "server_stats" then (ServerStatsReport.ofFields fields).map .serverStats
  else if tag = "clients" then (field fields "rows" (vecOfJson ClientRow.ofJson)).map .clients
  else if tag = "nts_data" then (field fields "master_key_ids" (vecOfJson u32OfJson)).map .ntsData
  else if tag = "tracking" then (TrackingReport.ofFields fields).map .tracking
  else if tag = "pong" then (field fields "version" stringOfJson).map .pong
  else if tag = "error" then (field fields "message" stringOfJson).map .error
  else none

def ofJson [IntCast R] : Json R → Option (ControlResponse R)
  | .object fields => (field fields "result" stringOfJson).bind (ofTag fields)
  | _ => none

end ControlResponse

/-! ## Texts -/

/-- What is used of `serde_json`. -/
structure SerdeJson (R : Type) where
  /-- The text of a finite number that is no integer's. -/
  number : R → List Char
  /-- The value of a text, or what is wrong with it. -/
  value : String → Except String (Json R)
  /-- What is wrong with a value of the wrong type. -/
  mismatch : Json R → String

namespace SerdeJson

variable {R : Type} (json : SerdeJson R)

/-- `to_string`. -/
def toString (j : Json R) : String := String.ofList (j.write json.number)

/-- `from_str`. -/
def fromStr {α : Type} (ofJson : Json R → Option α) (s : String) : Except String α :=
  match json.value s with
  | .error e => .error e
  | .ok j =>
    match ofJson j with
    | none => .error (json.mismatch j)
    | some a => .ok a

end SerdeJson

end RustyTime
