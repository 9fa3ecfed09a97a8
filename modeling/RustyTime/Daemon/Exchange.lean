import RustyTime.Daemon.NtsSession
import RustyTime.Daemon.Sync

/-!
# One exchange

`exchange` of `rusty_time-daemon/src/sync.rs`: a request goes out, and datagrams come in by the
batch until one answers it. The nonce, the key establishment that replaces a spent session, the
clock readings and the batches are inputs; the batches end with the deadline or an error of the
socket. The last part, from the packet on, is `Source.accept`.
-/

namespace RustyTime

/-- A datagram as `recv_batch` hands it over. -/
structure Message where
  bytes : List UInt8
  /-- The kernel's receive stamp, where there is one. -/
  kernelRxNs : Option Int

/-- One call of `recv_batch`, and the clock read once after it. -/
structure Batch (R : Type) where
  messages : List Message
  wallNs : Option Int
  monoS : Option R

/-- How the receive loop ends before its deadline. -/
inductive Answer (R : Type) where
  | found (packet : NtpPacket) (t4Ns : Int) (t4MonoS : R)
  /-- An NTS NAK answering this very request. -/
  | nak

/-- What `exchange` reads from outside. -/
structure ExchangeInputs (R : Type) where
  /-- `nonce_value`. -/
  nonce : NtpTimestamp
  random : SystemRandom
  /-- The session `renew_nts` opens, unless it fails. -/
  renewed : Option NtsSession
  renewedRandom : SystemRandom
  t1Ns : Option Int
  t1MonoS : Option R
  /-- Whether the request was sent. -/
  sent : Bool
  batches : List (Batch R)

variable {R : Type}

/-- The request's header. -/
def ExchangeInputs.header (inp : ExchangeInputs R) : Vector UInt8 48 :=
  Vector.ofFn fun i => (NtpPacket.clientRequest 4 inp.nonce).toBytes.getD i 0

/-- The request, and the session it was protected under. With every cookie spent, keys are
established again first. -/
def protectExchange (aead : Aead) (nts : Option NtsSession) (inp : ExchangeInputs R) :
    Option NtsSession × Option (List UInt8) :=
  match nts with
  | none => (none, some inp.header.toList)
  | some session =>
    match session.protect aead inp.random inp.header with
    | (session, .ok packet) => (some session, some packet)
    | (session, .error .cookiesExhausted) =>
      match inp.renewed with
      | none => (some session, none)
      | some fresh =>
        match fresh.protect aead inp.renewedRandom inp.header with
        | (fresh, .ok packet) => (some fresh, some packet)
        | (fresh, .error _) => (some fresh, none)
    | (session, .error _) => (some session, none)

/-- The kiss code of an NTS NAK. -/
def isNtsn (packet : NtpPacket) : Bool :=
  packet.stratum == 0 && packet.referenceId == #v[0x4E, 0x54, 0x53, 0x4E]

variable [Field R] [LinearOrder R]

/-- The receive stamps of a datagram. The kernel's is preferred, and the time between it and the
clock's reading is taken off the monotonic stamp too. -/
def Message.t4 (message : Message) (wallNs : Int) (monoS : R) : Int × R :=
  let t4Ns := message.kernelRxNs.getD wallNs
  let latency := max (((wallNs - t4Ns : Int) : R) * 1e-9) 0
  (t4Ns, monoS - latency)

/-- The loop over one batch. -/
def scanBatch (aead : Aead) (nonce : NtpTimestamp) (wallNs : Int) (monoS : R) :
    Option NtsSession → List Message → Option NtsSession × Option (Answer R)
  | nts, [] => (nts, none)
  | nts, message :: rest =>
    if message.bytes.length < headerLen then scanBatch aead nonce wallNs monoS nts rest
    else
      match NtpPacket.parse message.bytes with
      | .error _ => scanBatch aead nonce wallNs monoS nts rest
      | .ok p =>
        if p.originTs = nonce ∧ p.mode = .server then
          let (t4Ns, t4MonoS) := message.t4 wallNs monoS
          match nts with
          | none => (none, some (.found p t4Ns t4MonoS))
          | some session =>
            match session.verify aead message.bytes with
            | (session, .ok _) => (some session, some (.found p t4Ns t4MonoS))
            | (session, .error _) =>
              if isNtsn p then (some session.forgetCookies, some .nak)
              else scanBatch aead nonce wallNs monoS (some session) rest
        else scanBatch aead nonce wallNs monoS nts rest

/-- The receive loop. A clock that cannot be read ends the exchange. -/
def recvLoop (aead : Aead) (nonce : NtpTimestamp) :
    Option NtsSession → List (Batch R) → Option NtsSession × Option (Answer R)
  | nts, [] => (nts, none)
  | nts, batch :: batches =>
    match batch.wallNs, batch.monoS with
    | some wallNs, some monoS =>
      match scanBatch aead nonce wallNs monoS nts batch.messages with
      | (nts, some answer) => (nts, some answer)
      | (nts, none) => recvLoop aead nonce nts batches
    | _, _ => (nts, none)

/-- `exchange`: the source and its session afterwards, and the sample with what the server said
about itself. -/
def exchange (aead : Aead) (source : Source R) (nts : Option NtsSession)
    (inp : ExchangeInputs R) : Source R × Option NtsSession × Option (Sample R × UInt8 × R) :=
  match protectExchange aead nts inp with
  | (nts, none) => (source, nts, none)
  | (nts, some _) =>
    match inp.t1Ns, inp.t1MonoS with
    | some t1Ns, some t1MonoS =>
      if !inp.sent then (source, nts, none)
      else
        match recvLoop aead inp.nonce nts inp.batches with
        | (nts, some (.found packet t4Ns t4MonoS)) =>
          match source.accept ⟨packet, t1Ns, t4Ns, t1MonoS, t4MonoS⟩ with
          | some (source, sample, stratum, rootDistance) =>
            (source, nts, some (sample, stratum, rootDistance))
          | none => (source, nts, none)
        | (nts, _) => (source, nts, none)
    | _, _ => (source, nts, none)

end RustyTime
