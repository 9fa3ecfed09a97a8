import RustyTime.Daemon.Exchange

/-!
# Measuring one clock by another

A client and a server, each with a clock of its own. The server's is `θ` seconds ahead while an
exchange lasts. A timestamp tells the time modulo an era, in ticks of `2^-32` s.

* `NtpTimestamp.Stands` — a time that a timestamp stands for
* `Timely` — a reply's timestamps are of the time between its request and itself
* `Answering` — what the server is given to build one reply from
-/

namespace RustyTime

/-- A timestamp stands for a Unix time, and for every time whole eras away from it. -/
def NtpTimestamp.Stands {R : Type} [Field R] (ts : NtpTimestamp) (x : R) : Prop :=
  ∃ n : Int, (ts.val.toNat : Int) = n % 2 ^ 64 ∧ x = (n : R) / 4294967296.0 - 2208988800.0

/-- A Unix time as a clock gives it. -/
structure WallTime where
  secs : Int64
  nanos : UInt32
  nanos_lt : nanos.toNat < 1000000000

namespace WallTime

/-- `wall_ns`. -/
def ns (t : WallTime) : Int := t.secs.toInt * 1000000000 + t.nanos.toNat

/-- In seconds. -/
def seconds {R : Type} [Field R] (t : WallTime) : R := (t.ns : R) * 1e-9

def stamp (t : WallTime) : NtpTimestamp := .fromUnix t.secs t.nanos

end WallTime

/-- A packet's timestamps are of a clock `θ` ahead: the request was received after it left at `t1`,
and the reply was sent before it came at `t4`, up to `δ`. The clocks agree on the era. -/
def NtpPacket.Timely {R : Type} [Field R] [LinearOrder R] (p : NtpPacket) (θ δ t1 t4 : R) : Prop :=
  ∃ received sent : R, p.receiveTs.Stands received ∧ p.transmitTs.Stands sent ∧
    t1 + θ ≤ received + δ ∧ sent ≤ t4 + θ + δ ∧
    |received - t1| < 2147483647 ∧ |sent - t1| < 2147483647

/-- What the server has when it builds one reply: its state, who asks, when it read its clock for
the request and for the reply, and the random bytes it draws. -/
structure Answering (K R : Type) where
  guard : ServerState K R
  peer : SocketAddr K
  monoS : R
  received : WallTime
  sent : WallTime
  random : SystemRandom

namespace Answering

variable {K R : Type} [Field R] [LinearOrder R]

/-- The reply it builds. -/
def reply [DecidableEq K] [FloorRing R] (aead : Aead) (x : Answering K R) (request : List UInt8) :
    Option (List UInt8) :=
  (buildReplyIn aead request x.peer x.received.stamp x.guard
    ⟨some x.monoS, some (x.sent.secs, x.sent.nanos)⟩ x.random).2.map fun reply => reply.bytes.asSlice

/-- The server's clock is `θ` ahead, and the request and the reply each took time to arrive. -/
structure Causal (x : Answering K R) (θ t1 t4 : R) : Prop where
  request : t1 + θ ≤ x.received.seconds
  reply : x.sent.seconds ≤ t4 + θ
  received_near : |x.received.seconds - t1| < 2147483646
  sent_near : |x.sent.seconds - t1| < 2147483646

end Answering

end RustyTime
