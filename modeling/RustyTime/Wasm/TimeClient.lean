import RustyTime.Core.Filter
import RustyTime.Core.Ntp
import RustyTime.Core.Vclock

/-!
# The browser client

`rusty_time-wasm/src/lib.rs`: one request in flight, and a virtual clock moved by the replies that
are taken. The page's clock readings are inputs. The counters are `u32` and wrap.
-/

namespace RustyTime

variable {R : Type} [Field R] [LinearOrder R]

/-- `BROWSER_ERROR_FLOOR_MS`. -/
def browserErrorFloorMs : R := 1

structure TimeClient (R : Type) where
  register : SampleRegister R
  vclock : VirtualClock R
  /-- The wall clock when the request in flight was built. -/
  pendingT1Ms : Option R
  /-- What the reply has to echo. -/
  pendingNonce : NtpTimestamp
  lastMonoMs : R
  accepted : UInt32
  rejected : UInt32

/-- The seconds of an NTP era. -/
def eraS : R := 4294967296.0

/-- `ntp_to_unix_near`: the era that puts the timestamp nearest the pivot. -/
def ntpToUnixNear (ts : NtpTimestamp) (pivotUnixS : R) : R :=
  let base : R := (ts.seconds.toNat : R) - 2208988800.0 + (ts.fraction.toNat : R) / eraS
  ([-1, 1].foldl (fun (best : R × R) (k : R) =>
    let candidate := base + k * eraS
    let distance := |candidate - pivotUnixS|
    if distance < best.2 then (candidate, distance) else best) (base, |base - pivotUnixS|)).1

namespace TimeClient

/-- `REGISTER_CAPACITY`: a tab keeps no long history. -/
def registerCapacity : Nat := 16

/-- `new_inner`. -/
def new : TimeClient R where
  register := .new registerCapacity
  vclock := .new
  pendingT1Ms := none
  pendingNonce := .zero
  lastMonoMs := 0
  accepted := 0
  rejected := 0

omit [Field R] [LinearOrder R] in
/-- `build_request_with_nonce`: the client afterwards, and the request. -/
def buildRequestWithNonce (c : TimeClient R) (dateNowMs : R) (nonce : UInt64) :
    TimeClient R × List UInt8 :=
  ({ c with pendingNonce := ⟨nonce⟩, pendingT1Ms := some dateNowMs },
    (NtpPacket.clientRequest 4 ⟨nonce⟩).toBytes)

/-- The test before the request is consumed. -/
def Usable (nonce : NtpTimestamp) (packet : NtpPacket) : Prop :=
  packet.mode = .server ∧ packet.originTs = nonce ∧ packet.stratum ≠ 0 ∧ packet.stratum ≤ 15 ∧
    packet.leap ≠ .unsynchronized ∧ packet.receiveTs.isZero = false ∧
    packet.transmitTs.isZero = false

instance (nonce : NtpTimestamp) (packet : NtpPacket) : Decidable (Usable nonce packet) :=
  inferInstanceAs (Decidable (_ ∧ _ ∧ _ ∧ _ ∧ _ ∧ _ ∧ _))

/-- The offset and the delay of an exchange begun at `t1Ms` and ended at `dateNowMs`. -/
def measure (packet : NtpPacket) (t1Ms dateNowMs : R) : R × R :=
  let t1 := t1Ms / 1e3
  let t4 := dateNowMs / 1e3
  offsetDelay t1 (ntpToUnixNear packet.receiveTs t1) (ntpToUnixNear packet.transmitTs t4) t4

omit [Field R] [LinearOrder R] in
/-- A response turned away. -/
def reject (c : TimeClient R) : TimeClient R × Bool :=
  ({ c with rejected := c.rejected + 1 }, false)

/-- What an accepted packet does. The regression is preferred once it has an estimate. -/
def accept (std : StdFloat R) (c : TimeClient R) (packet : NtpPacket) (offset delay perfNowMs : R) :
    TimeClient R :=
  let monoS := perfNowMs / 1e3
  let register := c.register.push
    { t := monoS, offset := offset, delay := delay, dispersion := packet.rootDispersion.toSeconds }
  let (register, estimate) := register.regress std monoS
  let (bestOffset, errorS) :=
    match estimate with
    | some est => (est.offset, max est.offsetSd (delay / 2.0) + browserErrorFloorMs / 1e3)
    | none => (offset, delay / 2.0 + browserErrorFloorMs / 1e3)
  { c with
    register := register
    vclock := c.vclock.update monoS bestOffset none errorS
    lastMonoMs := perfNowMs
    accepted := c.accepted + 1 }

/-- `process_response_inner`: the client afterwards, and whether the response was accepted. -/
def processResponseInner (std : StdFloat R) (c : TimeClient R) (bytes : List UInt8)
    (dateNowMs perfNowMs : R) : TimeClient R × Bool :=
  match c.pendingT1Ms with
  | none => c.reject
  | some t1Ms =>
    if bytes.length < headerLen then c.reject
    else
      match NtpPacket.parse bytes with
      | .error _ => c.reject
      | .ok packet =>
        if ¬Usable c.pendingNonce packet then c.reject
        else
          let c := { c with pendingT1Ms := none }
          let (offset, delay) := measure packet t1Ms dateNowMs
          -- an exchange that cannot have happened this way
          if delay < 0 then c.reject
          else (c.accept std packet offset delay perfNowMs, true)

end TimeClient

end RustyTime
