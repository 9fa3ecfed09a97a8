import RustyTime.Properties.KeAgree
import RustyTime.Properties.NtsAnswer
import RustyTime.Properties.Rotation
import RustyTime.Spec.Serving

/-!
# A client and a server under NTS

The two ends of the protocol, and what lies between them. The client asks and, later, hears; the
server meanwhile serves any datagrams, rotates its master keys and restarts from its state. What
reaches the client is anything; what it establishes keys from is what came of the server's answer.

* `NtsPair.step` — one event
* `NtsPair.exchange_eq` — asking and hearing are the client's `exchange`
* `Round.play` — one exchange that the server takes part in
-/

namespace RustyTime

variable {K R : Type}

/-- An establishment of keys: both ends of the connection export the same. -/
structure KeAttempt where
  keys : NtsKeys
  /-- The server's. -/
  random : SystemRandom
  ntpPort : UInt16
  /-- What the server reads of the request. -/
  requestReads : List KeRead
  /-- What the client reads of an answer. -/
  answerReads : List UInt8 → List KeRead
  host : String
  kePort : UInt16

namespace KeAttempt

def serverEnd (k : KeAttempt) (ring : KeyRing) : KeSession :=
  ⟨k.requestReads, some k.keys, some ring, k.random⟩

def clientEnd (k : KeAttempt) (sent : List UInt8) : KeConnection where
  reads := k.answerReads sent
  alpnProtocol := some alpn
  exportKey context := some (if context = 0 then k.keys.c2s else k.keys.s2c)

/-- The session the client has from it. -/
def session (aead : Aead) (ring : KeyRing) (k : KeAttempt) : Option NtsSession :=
  match handleKe aead (k.serverEnd ring) k.ntpPort with
  | .error _ => none
  | .ok sent =>
    (Established.establish (k.clientEnd sent) k.host k.kePort).toOption.map
      fun e => e.session

/-- The connection delivers no more than was sent. -/
def Honest (k : KeAttempt) : Prop := ∀ sent, (k.answerReads sent).flatMap KeRead.bytes <+: sent

/-- It delivers both messages. -/
structure Whole (k : KeAttempt) : Prop where
  request : Delivers k.requestReads clientRequest
  answer : ∀ sent, sent ≠ [] → Delivers (k.answerReads sent) sent

end KeAttempt

/-- How the client begins an exchange. The session it renews is the one it establishes. -/
structure Ask (R : Type) where
  inp : ExchangeInputs R
  ke : Option KeAttempt

def Ask.inputs (aead : Aead) (ring : KeyRing) (x : Ask R) : ExchangeInputs R :=
  { x.inp with renewed := x.ke.bind (KeAttempt.session aead ring) }

/-- A request in flight, and the server's replies to it so far. -/
structure Flight where
  nonce : NtpTimestamp
  request : List UInt8
  replies : List (List UInt8)

/-- The server, the client's session, and what is between them. -/
structure NtsPair (K R : Type) where
  guard : ServerState K R
  session : NtsSession
  flight : Option Flight

inductive PairEvent (K R : Type) where
  /-- The client begins an exchange. -/
  | ask (x : Ask R)
  /-- A datagram reaches the server, whoever sent it. -/
  | serve (d : Datagram K R)
  /-- A new master key. -/
  | rotate (key : MasterKey)
  /-- The server starts again with the keys of its state. -/
  | restart (clients : ClientTable K R) (stratum : UInt8) (upstream : Upstream R)
  /-- The client ends its exchange with what arrived. -/
  | hear (batches : List (Batch R))

namespace NtsPair

/-- The client's end of an exchange, up to the request. -/
def ask (aead : Aead) (w : NtsPair K R) (x : Ask R) : NtsPair K R :=
  let inp := x.inputs aead w.guard.ring
  match protectExchange aead (some w.session) inp with
  | (nts, none) => { w with session := nts.getD w.session, flight := none }
  | (nts, some request) =>
    { w with session := nts.getD w.session, flight := some ⟨inp.nonce, request, []⟩ }

/-- What the client makes of the arrivals. -/
def heard [Field R] [LinearOrder R] (aead : Aead) (w : NtsPair K R) (batches : List (Batch R)) :
    Option NtsSession × Option (Answer R) :=
  match w.flight with
  | none => (some w.session, none)
  | some f => recvLoop aead f.nonce (some w.session) batches

variable [DecidableEq K] [Field R] [LinearOrder R] [FloorRing R]

/-- A datagram at the server. The replies to the request in flight are kept. -/
def serve (aead : Aead) (w : NtsPair K R) (d : Datagram K R) : NtsPair K R :=
  let (guard, reply) := buildReplyIn aead d.request d.peer d.recvTs w.guard d.clock d.random
  { w with
    guard := guard
    flight := w.flight.map fun f =>
      if d.request = f.request then
        { f with replies := f.replies ++ (reply.map fun r => r.bytes.asSlice).toList }
      else f }

def step (aead : Aead) (w : NtsPair K R) : PairEvent K R → NtsPair K R
  | .ask x => w.ask aead x
  | .serve d => w.serve aead d
  | .rotate key => { w with guard := { w.guard with ring := w.guard.ring.rotateIn key } }
  | .restart clients stratum upstream =>
    { w with guard := ⟨clients, w.guard.ring, stratum, upstream⟩ }
  | .hear batches =>
    { w with session := (w.heard aead batches).1.getD w.session, flight := none }

/-! ## What a run is trusted with -/

/-- Both ends have randomness, and the server a clock, whenever they ask; a connection delivers no
more than was sent; and nothing is forged: what verifies is a reply to the request in flight. -/
def Sound (aead : Aead) (w : NtsPair K R) : PairEvent K R → Prop
  | .ask x =>
    x.inp.random.Works ∧ x.inp.renewedRandom.Works ∧ ∀ k, x.ke = some k → k.Honest
  | .serve d => d.random.Works ∧ d.clock.wallParts.isSome
  | .rotate _ => True
  | .restart _ _ _ => True
  | .hear batches =>
    ∀ f, w.flight = some f → ∀ a ∈ arrivals batches,
      Verifies aead (some w.session) a.bytes → a.bytes ∈ f.replies

/-! ## What a run owes -/

end NtsPair

namespace PairEvent

def isAsk : PairEvent K R → Bool
  | .ask _ => true
  | _ => false

/-- The key that is rotated in. -/
def rotated : PairEvent K R → Option MasterKey
  | .rotate key => some key
  | _ => none

end PairEvent

/-- How many exchanges are begun. -/
def asks (events : List (PairEvent K R)) : Nat := events.countP PairEvent.isAsk

/-- The keys that are rotated in. -/
def rotations (events : List (PairEvent K R)) : List MasterKey := events.filterMap PairEvent.rotated

/-- Where no more than nine exchanges are begun, fewer than so many keys are rotated in. -/
def Spaced (retained : Nat) (events : List (PairEvent K R)) : Prop :=
  ∀ stretch, stretch <:+: events → asks stretch ≤ 9 → (rotations stretch).length < retained

/-! ## One exchange -/

/-- An exchange that the server takes part in, in whatever state it is by then. -/
structure Round (K R : Type) where
  guard : ServerState K R
  ask : Ask R
  peer : SocketAddr K
  recvTs : NtpTimestamp
  clock : ClockReadings R
  random : SystemRandom
  /-- What arrives, given the server's reply. -/
  network : Option (List UInt8) → List (Batch R)

namespace Round

variable [DecidableEq K] [Field R] [LinearOrder R] [FloorRing R]

/-- The pair once the client has asked. -/
def asked (aead : Aead) (s : NtsSession) (r : Round K R) : NtsPair K R :=
  NtsPair.step aead ⟨r.guard, s, none⟩ (.ask r.ask)

/-- The request as the server gets it. -/
def datagram (r : Round K R) (f : Flight) : Datagram K R :=
  ⟨f.request, r.peer, r.recvTs, r.clock, r.random⟩

/-- The session afterwards, and what the receive loop found. -/
def play (aead : Aead) (s : NtsSession) (r : Round K R) : NtsSession × Option (Answer R) :=
  let asked := r.asked aead s
  match asked.flight with
  | none => (asked.session, none)
  | some f =>
    let served := asked.step aead (.serve (r.datagram f))
    let batches := r.network (served.flight.bind fun f => f.replies.head?)
    ((served.step aead (.hear batches)).session, (served.heard aead batches).2)

/-- The reply was found, and with it the time. -/
def Answered (aead : Aead) (s : NtsSession) (r : Round K R) : Prop :=
  ∃ packet t4Ns t4MonoS, (r.play aead s).2 = some (.found packet t4Ns t4MonoS)

/-- Nothing is lost: the server has keys, the client establishes its own if there is need, the
request is admitted, and the reply arrives before anything else that counts. -/
structure Delivered (aead : Aead) (s : NtsSession) (r : Round K R) : Prop where
  ids : r.guard.ring.DistinctIds
  current : ∃ master, r.guard.ring.current = some master
  random : r.ask.inp.random.Works ∧ r.ask.inp.renewedRandom.Works
  server : r.random.Works ∧ r.clock.wallParts.isSome
  ke : s.cookies = [] → ∃ k, r.ask.ke = some k ∧ k.Whole ∧ k.random.Works
  admitted : ∀ f, (r.asked aead s).flight = some f →
    AdmittedToRespond r.guard f.request r.peer r.clock
  arrives : ∀ f reply, (r.asked aead s).flight = some f → ∃ before a after,
    arrivals (r.network (some reply)) = before ++ a :: after ∧ a.bytes = reply ∧
      ∀ x ∈ before, Junk aead f.nonce (some (r.asked aead s).session) x.bytes

end Round

end RustyTime
