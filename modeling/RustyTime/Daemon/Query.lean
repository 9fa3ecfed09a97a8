import RustyTime.Core.Filter
import RustyTime.Daemon.NtsSession
import RustyTime.Daemon.SealedStore

/-!
# The query command

`rusty_time-daemon/src/query.rs`: exchanges with one server, filtered and reported. Seconds as
`f64` are numbers of an ordered field `R`. The nonces, the clock readings and what `recv` returns
are inputs. A report's copies of names and addresses are left out.
-/

namespace RustyTime.Query

variable {R : Type} [Field R] [LinearOrder R]

/-- `UNIX_EPOCH_OFFSET`. -/
def unixEpochOffset : R := 2208988800

/-- `ntp_to_unix_near`: the era that puts the timestamp nearest the pivot. -/
def ntpToUnixNear (ts : NtpTimestamp) (pivotUnixS : R) : R :=
  let eraSpan : R := 4294967296.0
  let base : R := (ts.seconds.toNat : R) - unixEpochOffset + (ts.fraction.toNat : R) / eraSpan
  ([-1, 1].foldl (fun (best : R × R) (k : R) =>
    let cand := base + k * eraSpan
    let d := |cand - pivotUnixS|
    if d < best.2 then (cand, d) else best) (base, |base - pivotUnixS|)).1

def leapStr : LeapIndicator → String
  | .noWarning => "no-warning"
  | .lastMinute61 => "last-minute-61"
  | .lastMinute59 => "last-minute-59"
  | .unsynchronized => "unsynchronized"

/-- `refid_str`: four characters of a primary server, and hexadecimal otherwise. -/
def refidStr (stratum : UInt8) (id : Vector UInt8 4) : String :=
  let text := (id.toList.takeWhile (· ≠ 0)).map fun b =>
    if 33 ≤ b ∧ b ≤ 126 then Char.ofNat b.toNat else '?'
  if stratum = 1 ∧ text ≠ [] then String.ofList text else hex id.toList

structure SampleReport (R : Type) where
  offsetS : R
  delayS : R
  stratum : UInt8
  rootDelayS : R
  rootDispersionS : R

structure NtsReport where
  cookiesAfter : Nat
  authenticated : Nat
  rejected : Nat

structure QueryReport (R : Type) where
  sent : Nat
  received : Nat
  samples : List (SampleReport R)
  bestOffsetS : Option R
  bestDelayS : Option R
  regressOffsetS : Option R
  regressFreqPpm : Option R
  regressSdS : Option R
  referenceId : String
  leap : String
  nts : Option NtsReport

/-- What one turn of the loop of `measure_against` reads from outside. -/
structure Turn (R : Type) where
  /-- `nonce`. -/
  nonce : NtpTimestamp
  random : SystemRandom
  t1Ns : Option Int
  t1MonoS : Option R
  /-- Whether the request was sent. -/
  sent : Bool
  /-- What `recv` returns, call by call, up to the deadline or an error. -/
  datagrams : List (List UInt8)
  t4Ns : Option Int
  t4MonoS : Option R

inductive QueryError where
  | protecting (error : NtsSessionError)
  /-- A clock that cannot be read. -/
  | clock

/-- The variables of `measure_against` that a turn changes. -/
structure Measuring (R : Type) where
  nts : Option NtsSession
  register : SampleRegister R
  report : QueryReport R

/-- The request's header. -/
def Turn.header {R : Type} (x : Turn R) : Vector UInt8 48 :=
  Vector.ofFn fun i => (NtpPacket.clientRequest 4 x.nonce).toBytes.getD i 0

/-- The receive loop: the first datagram that is a server's and carries the nonce. -/
def Turn.response {R : Type} (x : Turn R) : Option (NtpPacket × List UInt8) :=
  x.datagrams.findSome? fun bytes =>
    if headerLen ≤ bytes.length then
      match NtpPacket.parse bytes with
      | .ok p => if p.originTs = x.nonce ∧ p.mode = .server then some (p, bytes) else none
      | .error _ => none
    else none

namespace Measuring

/-- The request, protected under a session. -/
def protect (aead : Aead) (m : Measuring R) (x : Turn R) : Except QueryError (Measuring R) :=
  match m.nts with
  | none => .ok m
  | some session =>
    match session.protect aead x.random x.header with
    | (session, .ok _) => .ok { m with nts := some session }
    | (_, .error e) => .error (.protecting e)

/-- A response is verified before its timestamps mean anything. -/
def authenticate (aead : Aead) (m : Measuring R) (bytes : List UInt8) : Measuring R × Bool :=
  match m.nts with
  | none => (m, true)
  | some session =>
    match session.verify aead bytes with
    | (session, .ok _) =>
      ({ m with
          nts := some session
          report.nts := m.report.nts.map fun n =>
            { n with authenticated := n.authenticated + 1, cookiesAfter := session.cookies.length }
        }, true)
    | (session, .error _) =>
      ({ m with
          nts := some session
          report.nts := m.report.nts.map fun n =>
            { n with rejected := n.rejected + 1, cookiesAfter := session.cookies.length }
        }, false)

/-- The sanity gates, and the sample of a packet that passes them. -/
def accept (m : Measuring R) (packet : NtpPacket) (t1Wall t1Mono t4Wall t4Mono : R) :
    Measuring R :=
  if packet.stratum = 0 ∨ 15 < packet.stratum then m
  else if packet.leap = .unsynchronized then m
  else if packet.transmitTs.isZero ∨ packet.receiveTs.isZero then m
  else
    let t2 := ntpToUnixNear packet.receiveTs t1Wall
    let t3 := ntpToUnixNear packet.transmitTs t4Wall
    let (offset, delay) := offsetDelay t1Wall t2 t3 t4Wall
    if delay < 0 then m
    else
      { m with
        report := { m.report with
          received := m.report.received + 1
          referenceId := refidStr packet.stratum packet.referenceId
          leap := leapStr packet.leap
          samples := m.report.samples ++ [⟨offset, delay, packet.stratum,
            packet.rootDelay.toSeconds, packet.rootDispersion.toSeconds⟩] }
        register := m.register.push
          ⟨(t1Mono + t4Mono) / 2.0, offset, delay, packet.rootDispersion.toSeconds⟩ }

/-- One turn of the loop. -/
def turn (aead : Aead) (m : Measuring R) (x : Turn R) : Except QueryError (Measuring R) :=
  match m.protect aead x with
  | .error e => .error e
  | .ok m =>
    match x.t1Ns, x.t1MonoS with
    | some t1Ns, some t1Mono =>
      if !x.sent then .ok m
      else
        let m := { m with report.sent := m.report.sent + 1 }
        match x.response with
        | none => .ok m
        | some (packet, bytes) =>
          match x.t4Ns, x.t4MonoS with
          | some t4Ns, some t4Mono =>
            match m.authenticate aead bytes with
            | (m, true) =>
              .ok (m.accept packet ((t1Ns : R) * 1e-9) t1Mono ((t4Ns : R) * 1e-9) t4Mono)
            | (m, false) => .ok m
          | _, _ => .error .clock
    | _, _ => .error .clock

/-- What `measure_against` starts from. -/
def start (nts : Option NtsSession) : Measuring R where
  nts := nts
  register := .new 64
  report :=
    { sent := 0, received := 0, samples := []
      bestOffsetS := none, bestDelayS := none
      regressOffsetS := none, regressFreqPpm := none, regressSdS := none
      referenceId := "", leap := ""
      nts := nts.map fun session => ⟨session.cookies.length, 0, 0⟩ }

end Measuring

end RustyTime.Query
