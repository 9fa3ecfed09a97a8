import RustyTime.Daemon.Control
import RustyTime.Daemon.Sync

/-!
# Answers that cross the socket

The states that a daemon reaches, whatever it published and whatever its server holds; what a
lossless `serde_json` is; and when the answer to a request survives its way to the client.
-/

namespace RustyTime

open Infra Infra.Ieee

/-! ## A lossless encoding -/

/-- What the texts of `json` keep: an answer and a request are read back, and a line that was cut
is not read. -/
structure SerdeJson.Lossless {R : Type} (json : SerdeJson R) : Prop where
  numeral : ∀ x, ∀ c ∈ json.number x, Json.numeral c = true
  request : ∀ request : ControlRequest,
    json.value (json.toString request.toJson) = .ok request.toJson
  response : ∀ response : ControlResponse R,
    json.value (json.toString response.toJson) = .ok response.toJson
  cut : ∀ (response : ControlResponse R) (s : String),
    s.toList <+: (json.toString response.toJson).toList → s ≠ json.toString response.toJson →
    ∃ e, json.value s = .error e

namespace ControlResponse

variable {R : Type}

/-- The numbers of an answer that are no integers. -/
def numbers : ControlResponse R → List (F64 R)
  | clients rows => rows.map (·.lastSeenAgoS)
  | tracking report => [report.offsetS, report.freqPpm, report.errorBoundS]
  | _ => []

/-- The texts of the finite numbers have the 24 characters of an `f64` at most. -/
def ShortNumbers (json : SerdeJson R) (response : ControlResponse R) : Prop :=
  ∀ x, .finite x ∈ response.numbers → (json.number x).length ≤ 24

end ControlResponse

/-- An address is written in hexadecimal digits, points and colons, 39 of them at most. -/
def IsAddressText {K : Type} (address : K → String) : Prop :=
  ∀ a, (address a).length ≤ 39 ∧
    ∀ c ∈ (address a).toList, c ∈ "0123456789abcdef.:".toList

namespace Control

/-! ## Reachable states -/

/-- One call of `publish`, with its instant. -/
structure Publication (R : Type) where
  synchronized : Bool
  offsetS : F64 R
  freqPpm : F64 R
  errorBoundS : F64 R
  pollIntervalS : F64 R
  instant : R

/-- A loop that started at an instant, and what it has published since. -/
structure History (R : Type) where
  start : R
  publications : List (Publication R)

section

variable {K R : Type} [Field R] [LinearOrder R]

/-- `publish`, called on a state. -/
def Publication.apply [FloorSemiring R] (_ : TrackingState R) (p : Publication R) :
    TrackingState R :=
  .publish p.synchronized p.offsetS p.freqPpm p.errorBoundS p.pollIntervalS p.instant

/-- What a history comes to. -/
def History.state [FloorSemiring R] (h : History R) : TrackingState R :=
  h.publications.foldl Publication.apply (.unsynchronized h.start)

def Mutex.map {α β : Type} (f : α → β) : Mutex α → Mutex β
  | healthy value => healthy (f value)
  | poisoned => poisoned

/-- The state of a daemon in its roles. -/
def ControlState.after [FloorSemiring R] (server : Option (Mutex (Server K R)))
    (tracking : Option (Mutex (History R))) : ControlState K R where
  server := server
  tracking := tracking.map fun m => m.map History.state

/-- A bound of the loop, which may be infinite. -/
def ofBound : WithTop R → F64 R
  | ⊤ => .infinite false
  | (x : R) => .finite x

/-- The control plane shows what the loop publishes. -/
structure Shows (u : TrackingState R) (t : RustyTime.TrackingState R) : Prop where
  synchronized : u.report.synchronized = t.synchronized
  offsetS : u.report.offsetS = .finite t.offsetS
  freqPpm : u.report.freqPpm = .finite t.freqPpm
  errorBoundS : u.report.errorBoundS = ofBound t.errorBoundS
  updated : u.updated = t.updated
  pollIntervalS : u.pollIntervalS = .finite t.pollIntervalS

/-! ## The answers that survive -/

def Publication.Finite (p : Publication R) : Prop :=
  p.offsetS.isFinite = true ∧ p.freqPpm.isFinite = true ∧ p.errorBoundS.isFinite = true

/-- The loop has published, and the last time finite numbers. -/
def History.Finite (h : History R) : Prop := ∃ p ∈ h.publications.getLast?, p.Finite

/-- The characters of a list of ids: their digits and the commas between. -/
def idsLength (ids : List UInt32) : Nat :=
  (ids.map fun id => (toString id.toNat).length).sum + (ids.length - 1)

/-- When the answer to a request survives: the loop's last numbers were finite, no client was last
seen an infinite time ago, and the ids of the master keys fit the line that the client reads. -/
def Survives (clock : Readings R) (server : Option (Mutex (Server K R)))
    (tracking : Option (Mutex (History R))) : ControlRequest → Prop
  | .ping => True
  | .serverStats => True
  | .tracking => ∀ history, tracking = some (.healthy history) → history.Finite
  | .clients limit => ∀ guard, server = some (.healthy guard) →
      ∀ client ∈ listed guard limit, clock.monoS.getD 0 - client.2.lastSeen ≠ .infinite false
  | .ntsData => ∀ guard, server = some (.healthy guard) → idsLength guard.ring.keyIds ≤ 1048535

end

end Control

end RustyTime
