import RustyTime.Daemon.Query
import RustyTime.Spec.Measure

/-!
# What a query is given

* `NtpPacket.Tells` — a packet tells the time of a clock that is `θ` ahead
* `Query.Turn.Honest` — the answer that a turn believes does so
* `Query.SampleReport.Near` — a reported sample is off by no more than half its delay
-/

namespace RustyTime

variable {R : Type} [Field R] [LinearOrder R]

/-- A packet's timestamps are of a clock `θ` ahead: the request was received after it left at `t1`,
and the reply was sent before it came at `t4`, up to `δ`. They lie in the eras from 1900 on to
2172, each within half an era of the reading it is resolved by. -/
structure NtpPacket.Tells (p : NtpPacket) (θ δ t1 t4 received sent : R) : Prop where
  receive : p.receiveTs.Stands received
  transmit : p.transmitTs.Stands sent
  request : t1 + θ ≤ received + δ
  reply : sent ≤ t4 + θ + δ
  receive_near : |received - t1| < 2147483648.0
  transmit_near : |sent - t4| < 2147483648.0
  receive_low : -2208988800.0 ≤ received
  receive_high : received < 6380945792.0
  transmit_low : -2208988800.0 ≤ sent
  transmit_high : sent < 6380945792.0

namespace Query

/-- A datagram that verifies under a server's key, for some request. -/
def Authentic (aead : Aead) (s2c : Vector UInt8 32) (bytes : List UInt8) : Prop :=
  ∃ uniqueId cookies, Ef.verifyResponse aead bytes s2c uniqueId = .ok cookies

/-- The first answer tells the time of a clock `θ` ahead, up to `δ`. Under a key nothing is asked
of an answer that does not verify. -/
def Turn.Honest (aead : Aead) (key : Option (Vector UInt8 32)) (θ δ : R) (x : Turn R) : Prop :=
  ∀ packet bytes t1Ns t4Ns, x.response = some (packet, bytes) →
    (∀ s2c, key = some s2c → Authentic aead s2c bytes) → x.t1Ns = some t1Ns →
    x.t4Ns = some t4Ns →
    ∃ received sent, packet.Tells θ δ ((t1Ns : R) * 1e-9) ((t4Ns : R) * 1e-9) received sent

/-- A sample is off by no more than half its delay, up to `δ`. -/
def SampleReport.Near (θ δ : R) (s : SampleReport R) : Prop :=
  0 ≤ s.delayS ∧ |s.offsetS - θ| ≤ s.delayS / 2.0 + δ

end Query

end RustyTime
