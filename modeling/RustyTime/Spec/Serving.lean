import RustyTime.Properties.Server
import RustyTime.Spec.ClientRun

/-!
# What a reply in interleaved mode owes its client

The server at work: the UDP loop builds the replies of a batch, sends them and notes when they
left; the gateway builds replies between any two of its steps and notes nothing. Beside the
server's own state the run keeps what an onlooker would write down: which replies wait for their
send, when each reply that carries the time left, and whether what is known of a client's last
reply still belongs together.

* `Serving.step` — one event
* `Serving.Pairs` — an interleaved reply names the transmit time of the exchange it should
-/

namespace RustyTime

/-- A request, and what the machine gives while it is answered. -/
structure Datagram (K R : Type) where
  request : List UInt8
  peer : SocketAddr K
  recvTs : NtpTimestamp
  clock : ClockReadings R
  random : SystemRandom

/-- A built reply that waits for its send. -/
structure Pending (K : Type) where
  key : K
  handle : ClientHandle
  /-- The receive field, if the reply carries the time. -/
  receive : Option NtpTimestamp
  /-- How often its slot was handed to a new client since it was built. -/
  handed : Nat

/-- A reply that carried the time and left: its receive field, and when it left. -/
structure Noted (K : Type) where
  key : K
  receive : NtpTimestamp
  transmit : NtpTimestamp
deriving DecidableEq

/-- The server, and the onlooker's notes. -/
structure Serving (K R : Type) where
  guard : ServerState K R
  pending : List (Pending K)
  /-- The latest first. -/
  noted : List (Noted K)
  /-- Whether the last reply noted for a client is the last one built for it, and carries the
  time. -/
  paired : K → Bool

inductive ServingEvent (K R : Type) where
  /-- The UDP loop builds the reply to one datagram of a batch. -/
  | datagram (d : Datagram K R)
  /-- A gateway thread builds a reply. -/
  | gateway (d : Datagram K R)
  /-- The UDP loop has sent so many of the replies, and reads when. -/
  | sent (count : Nat) (transmit : Option NtpTimestamp)
  /-- Keys are rotated, or the clock behind the server changes its state. -/
  | follow (ring : KeyRing) (stratum : UInt8) (upstream : Upstream R)

/-! ## The requests -/

section

variable {K R : Type}

/-- The parsed request and the time, where it reaches the limiter. -/
def Datagram.reaches (d : Datagram K R) : Option (NtpPacket × R) :=
  if d.request.length < headerLen then none
  else
    match NtpPacket.parse d.request with
    | .error _ => none
    | .ok parsed =>
      if parsed.mode ≠ .client then none else d.clock.monoS.map fun now => (parsed, now)

/-- Whether the answer to an admitted request is no NTS NAK. -/
def carriesTime (aead : Aead) (ring : KeyRing) (request : List UInt8) : Bool :=
  let found := requestFields request
  match found.authField, found.cookie, found.uniqueId with
  | some _, some cookie, some _ => (Cookie.redeem aead ring cookie).toBool
  | _, _, _ => true

theorem Datagram.reaches_iff {d : Datagram K R} {parsed : NtpPacket} {now : R} :
    d.reaches = some (parsed, now) ↔ Reaches d.request d.clock parsed now := by
  unfold Datagram.reaches
  constructor
  · intro h
    split at h
    · cases h
    · next hlen =>
      split at h
      · cases h
      · next p hparse =>
        split at h
        · cases h
        · next hmode =>
          obtain ⟨now', hnow, heq⟩ := Option.map_eq_some_iff.mp h
          cases heq
          exact ⟨Nat.not_lt.mp hlen, hparse, not_not.mp hmode, hnow⟩
  · intro h
    rw [if_neg (Nat.not_lt.mpr h.length), h.parse]
    dsimp only
    rw [if_neg (not_not.mpr h.mode), h.monoS]
    rfl

end

namespace Serving

variable {K R : Type} [DecidableEq K] [Field R] [LinearOrder R] [FloorRing R]

/-- The origin field of a request that is admitted to be answered. -/
def answers (s : Serving K R) (d : Datagram K R) : Option NtpTimestamp :=
  match d.reaches with
  | none => none
  | some (parsed, now) =>
    if (s.guard.clients.admitHandle (clientKey d.peer) now).2.1 = .respond then
      some parsed.originTs
    else none

/-- What `response_mode_at` returns for such a request. -/
def mode (s : Serving K R) (d : Datagram K R) : Option ResponseMode :=
  match d.reaches with
  | none => none
  | some (parsed, now) =>
    let (clients, disposition, handle) := s.guard.clients.admitHandle (clientKey d.peer) now
    if disposition = .respond then some (clients.responseModeAt handle parsed.originTs).2 else none

/-! ## Steps -/

/-- A reply is built. `none` is no reply. -/
def build (aead : Aead) (s : Serving K R) (d : Datagram K R) :
    Serving K R × Option (Pending K) :=
  let (guard, reply) := buildReplyIn aead d.request d.peer d.recvTs s.guard d.clock d.random
  let key := clientKey d.peer
  match d.reaches with
  | none => ({ s with guard := guard }, none)
  | some (_, now) =>
    let handed := s.guard.clients.allocated (.admitHandle key now)
    let answered := (s.answers d).isSome
    let receive :=
      if answered ∧ carriesTime aead s.guard.ring d.request then
        some (markServerTimestamps d.recvTs d.recvTs).1
      else none
    ({ s with
        guard := guard
        pending := s.pending.map fun p =>
          if handed = some p.handle.slot then { p with handed := p.handed + 1 } else p
        paired := fun k => if k = key ∧ answered then false else s.paired k },
      reply.map fun reply => ⟨key, reply.handle, receive, 0⟩)

omit [Field R] [LinearOrder R] [FloorRing R] in
/-- One reply is noted to have left. A stale handle notes nothing. -/
def note (transmit : NtpTimestamp) (s : Serving K R) (p : Pending K) : Serving K R :=
  let clients := s.guard.clients.noteTransmitAt p.handle transmit
  match s.guard.clients.resolve p.handle with
  | none => { s with guard := { s.guard with clients := clients } }
  | some _ =>
    let last := (s.guard.clients.get p.key).map fun r => r.lastReceiveSent
    { s with
      guard := { s.guard with clients := clients }
      noted := (p.receive.map fun receive => ⟨p.key, receive, transmit⟩).toList ++ s.noted
      paired := fun k => if k = p.key then p.receive.isSome && p.receive == last else s.paired k }

def step (aead : Aead) (s : Serving K R) : ServingEvent K R → Serving K R
  | .datagram d =>
    let (s, reply) := s.build aead d
    { s with pending := s.pending ++ reply.toList }
  | .gateway d => (s.build aead d).1
  | .sent count transmit =>
    let s' :=
      match transmit with
      | none => s
      | some transmit => (s.pending.take count).foldl (note transmit) s
    { s' with pending := [] }
  | .follow ring stratum upstream =>
    { s with guard := { s.guard with ring := ring, stratum := stratum, upstream := upstream } }

/-- A property of every event of a run, in the state it comes in. -/
def Always (aead : Aead) (P : Serving K R → ServingEvent K R → Prop) :
    Serving K R → List (ServingEvent K R) → Prop
  | _, [] => True
  | s, event :: events => P s event ∧ Always aead P (s.step aead event) events

omit [Field R] [LinearOrder R] [FloorRing R] in
/-- A server that starts. -/
def start (guard : ServerState K R) : Serving K R := ⟨guard, [], [], fun _ => false⟩

/-! ## What is owed, and when it is kept -/

/-- An interleaved answer to a request with origin `o` carries the transmit time noted for the
client's last reply that carried the time, whose receive field was `o`. -/
def PairsAt (s : Serving K R) (d : Datagram K R) : Prop :=
  ∀ origin prevTransmit, s.answers d = some origin → s.mode d = some (.interleaved prevTransmit) →
    (s.noted.find? fun e => e.key = clientKey d.peer) =
      some ⟨clientKey d.peer, origin, prevTransmit⟩

def Pairs (s : Serving K R) : ServingEvent K R → Prop
  | .datagram d => s.PairsAt d
  | .gateway d => s.PairsAt d
  | _ => True

/-- A request that names the client's last receive field, while a transmit time is held for the
client, finds the two paired. -/
def MeetsAt (s : Serving K R) (d : Datagram K R) : Prop :=
  ∀ origin record, s.answers d = some origin →
    s.guard.clients.get (clientKey d.peer) = some record → record.lastReceiveSent = origin →
      origin.isZero = false → record.lastTransmit.isZero = false →
        s.paired (clientKey d.peer) = true

def Meets (s : Serving K R) : ServingEvent K R → Prop
  | .datagram d => s.MeetsAt d
  | .gateway d => s.MeetsAt d
  | .sent count _ => ∀ p ∈ s.pending.take count, p.handed < 4294967296
  | .follow _ _ _ => True

end Serving

end RustyTime
