import RustyTime.Core.ClientTable
import RustyTime.Daemon.NtsSession
import RustyTime.Nts.Cookie

/-!
# The NTP responder

`rusty_time-daemon/src/server.rs`: one request in, at most one reply out. `build_reply_in` is one
long function in the source; its stages are definitions of their own here, in the order the
source runs them. What the clock reads and what the system's randomness returns are inputs.
-/

namespace RustyTime

open Infra.Bytes

/-- The reply header fields that describe this server's own clock. -/
structure Upstream (R : Type) where
  leap : LeapIndicator
  referenceId : Vector UInt8 4
  rootDelayS : R
  rootDispersionS : R
deriving DecidableEq

namespace Upstream

variable {R : Type} [Field R]

/-- `Upstream::REFERENCE`; the id is `RSTY`. -/
def reference : Upstream R where
  leap := .noWarning
  referenceId := #v[0x52, 0x53, 0x54, 0x59]
  rootDelayS := 0
  rootDispersionS := 0.0001

/-- `Upstream::UNSYNCHRONIZED`; the id is `INIT`. -/
def unsynchronized : Upstream R where
  leap := .unsynchronized
  referenceId := #v[0x49, 0x4E, 0x49, 0x54]
  rootDelayS := 0
  rootDispersionS := 0

end Upstream

def stratumUnsynchronized : UInt8 := 16

/-- What replies say about the clock behind them. -/
structure Served (R : Type) where
  stratum : UInt8
  upstream : Upstream R
deriving DecidableEq

/-- What `serve_following` starts from. -/
def Served.unsynchronized {R : Type} [Field R] : Served R :=
  ⟨stratumUnsynchronized, .unsynchronized⟩

/-! ## State -/

structure SocketAddr (K : Type) where
  ip : K
  port : UInt16

/-- `client_key`: the address alone. The sender chooses its port. -/
def clientKey {K : Type} (peer : SocketAddr K) : K := peer.ip

/-- `ServerState`. -/
structure ServerState (K R : Type) where
  clients : ClientTable K R
  ring : KeyRing
  stratum : UInt8
  upstream : Upstream R

/-- What `SystemClock` reads while one reply is built. -/
structure ClockReadings (R : Type) where
  monoS : Option R
  /-- Unix seconds and nanoseconds. -/
  wallParts : Option (Int64 × UInt32)

/-- `ReplyBytes`. -/
inductive ReplyBytes where
  | plain (buf : List UInt8)
  | extended (v : List UInt8)
deriving DecidableEq

/-- `as_slice`. -/
def ReplyBytes.asSlice : ReplyBytes → List UInt8
  | .plain buf => buf
  | .extended v => v

/-- One built reply, and the handle of the client it is for. -/
structure Reply where
  bytes : ReplyBytes
  handle : ClientHandle
deriving DecidableEq

def maxReplyCookies : Nat := 8

/-- `unix_parts_to_ntp`. -/
def unixPartsToNtp (secs : Int64) (nanos : UInt32) : NtpTimestamp :=
  NtpTimestamp.fromUnix secs nanos

/-! ## The replies that carry no time -/

/-- `kiss_of_death`: stratum 0 and the kiss code `RATE`. -/
def kissOfDeath (request : NtpPacket) (recvTs : NtpTimestamp) : List UInt8 :=
  NtpPacket.toBytes
    { leap := .noWarning
      version := request.version
      mode := .server
      stratum := 0
      poll := request.poll
      precision := -20
      rootDelay := ⟨0⟩
      rootDispersion := ⟨0⟩
      referenceId := #v[0x52, 0x41, 0x54, 0x45]
      referenceTs := .zero
      originTs := request.transmitTs
      receiveTs := recvTs
      transmitTs := recvTs }

/-- `nts_nak`: a kiss with the code `NTSN` and the request's unique identifier. -/
def ntsNak (request : NtpPacket) (recvTs : NtpTimestamp) (uniqueId : List UInt8) : List UInt8 :=
  copyAt (kissOfDeath request recvTs) 12 [0x4E, 0x54, 0x53, 0x4E]
    ++ Ef.writeField FieldType.uniqueIdentifier uniqueId

/-! ## The fields of a request -/

/-- What the loop over the request's extension fields collects. -/
structure RequestFields where
  cookie : Option (List UInt8)
  uniqueId : Option (List UInt8)
  placeholders : Nat
  authField : Option Ef.Field

def RequestFields.none : RequestFields := ⟨Option.none, Option.none, 0, Option.none⟩

/-- The loop: it stops at the authenticator. -/
def RequestFields.scan (found : RequestFields) : List Ef.Field → RequestFields
  | [] => found
  | field :: rest =>
    if field.fieldType = FieldType.ntsCookie then
      scan { found with cookie := some field.body } rest
    else if field.fieldType = FieldType.uniqueIdentifier then
      scan { found with uniqueId := some field.body } rest
    else if field.fieldType = FieldType.ntsCookiePlaceholder then
      scan { found with placeholders := found.placeholders + 1 } rest
    else if field.fieldType = FieldType.ntsAuthenticator then
      { found with authField := some field }
    else scan found rest

/-- The extension fields of a request. -/
def requestFields (request : List UInt8) : RequestFields :=
  RequestFields.none.scan (Ef.fields request)

/-- `verify_client_authenticator`, over the packet that precedes it. -/
def verifyClientAuthenticator (aead : Aead) (request : List UInt8) (auth : Ef.Field)
    (c2s : Vector UInt8 32) : Bool :=
  match Ef.authenticatorParts auth.body with
  | none => false
  | some (nonce, ciphertext) =>
    (aead.decrypt c2s [request.take auth.offset, nonce] ciphertext).isSome

/-! ## The time -/

/-- The receive and transmit fields of a reply in a mode. Only transmit looks back. -/
def timestampFields (mode : ResponseMode) (recvTs : NtpTimestamp) : NtpTimestamp × NtpTimestamp :=
  match mode with
  | .basic => markServerTimestamps recvTs recvTs
  | .interleaved prevTransmit => markServerTimestamps recvTs prevTransmit

/-- The origin field tells the client which mode the reply is in. -/
def originField (mode : ResponseMode) (parsed : NtpPacket) : NtpTimestamp :=
  match mode with
  | .basic => parsed.transmitTs
  | .interleaved _ => parsed.receiveTs

section

variable {K R : Type} [Field R] [LinearOrder R] [FloorRing R]

/-- The header of a reply that carries the time. -/
def replyHeader (guard : ServerState K R) (parsed : NtpPacket) (mode : ResponseMode)
    (recvTs : NtpTimestamp) : NtpPacket where
  leap := guard.upstream.leap
  version := parsed.version
  mode := .server
  stratum := guard.stratum
  poll := parsed.poll
  precision := -20
  rootDelay := NtpShort.fromSeconds guard.upstream.rootDelayS
  rootDispersion := NtpShort.fromSeconds guard.upstream.rootDispersionS
  referenceId := guard.upstream.referenceId
  referenceTs := recvTs
  originTs := originField mode parsed
  receiveTs := (timestampFields mode recvTs).1
  transmitTs := (timestampFields mode recvTs).2

omit [Field R] [LinearOrder R] [FloorRing R] in
/-- In basic mode the transmit field is stamped as late as possible. -/
def stampTransmit (header : NtpPacket) (mode : ResponseMode) (clock : ClockReadings R) :
    Option NtpPacket :=
  match mode with
  | .interleaved _ => some header
  | .basic =>
    match clock.wallParts with
    | none => none
    | some (secs, nanos) =>
      some { header with
        transmitTs := (markServerTimestamps header.receiveTs (unixPartsToNtp secs nanos)).2 }

/-! ## The reply -/

/-- The nonces of `count` cookies, cut from one draw of randomness. -/
def cookieNonces (bytes : List UInt8) (count : Nat) : List (List UInt8) :=
  (List.range count).map fun i => (bytes.drop (i * cookieNonceLen)).take cookieNonceLen

omit [Field R] [LinearOrder R] [FloorRing R] in
/-- The NTS reply to a request whose cookie held `keys`: fresh cookies, sealed. -/
def buildNtsReply (aead : Aead) (ring : KeyRing) (keys : NtsKeys) (uniqueId : List UInt8)
    (placeholders : Nat) (header : NtpPacket) (mode : ResponseMode) (clock : ClockReadings R)
    (random : SystemRandom) : Option (List UInt8) :=
  let want := min (1 + placeholders) maxReplyCookies
  match random.fillRandom 0 (want * cookieNonceLen) with
  | none => none
  | some nonceBytes =>
    match Cookie.mintFieldsInto aead ring keys (cookieNonces nonceBytes.toList want) with
    | .error _ => none
    | .ok plaintext =>
      match stampTransmit header mode clock with
      | none => none
      | some header =>
        let reply := header.toBytes
          ++ Ef.writeField FieldType.uniqueIdentifier (uniqueId.take uniqueIdLen)
        match random.fillRandom 1 nonceLen with
        | none => none
        | some nonce =>
          match aead.encrypt keys.s2c [reply, nonce.toList] plaintext with
          | none => none
          | some ciphertext => some (reply ++ Ef.writeAuthenticator nonce.toList ciphertext)

/-- The reply to a request admitted to be answered: plain, a NAK, or NTS. -/
def answer (aead : Aead) (request : List UInt8) (parsed : NtpPacket) (recvTs : NtpTimestamp)
    (guard : ServerState K R) (mode : ResponseMode) (clock : ClockReadings R)
    (random : SystemRandom) : Option ReplyBytes :=
  let found := requestFields request
  let header := replyHeader guard parsed mode recvTs
  match found.authField with
  | none => (stampTransmit header mode clock).map fun header => .plain header.toBytes
  | some auth =>
    match found.cookie, found.uniqueId with
    | some cookie, some uniqueId =>
      match Cookie.redeem aead guard.ring cookie with
      | .error _ => some (.extended (ntsNak parsed recvTs uniqueId))
      | .ok keys =>
        if verifyClientAuthenticator aead request auth keys.c2s then
          (buildNtsReply aead guard.ring keys uniqueId found.placeholders header mode clock
            random).map .extended
        else none
    | _, _ => none

/-- A request the limiter lets through: the client's record takes part in the reply's mode. -/
def respond (aead : Aead) (request : List UInt8) (parsed : NtpPacket) (recvTs : NtpTimestamp)
    (guard : ServerState K R) (handle : ClientHandle) (clock : ClockReadings R)
    (random : SystemRandom) : ServerState K R × Option Reply :=
  let (clients, mode) := guard.clients.responseModeAt handle parsed.originTs
  let clients := clients.noteResponseAt handle recvTs (timestampFields mode recvTs).1
  let guard := { guard with clients := clients }
  (guard, (answer aead request parsed recvTs guard mode clock random).map
    fun bytes => ⟨bytes, handle⟩)

variable [DecidableEq K]

/-- `build_reply_in`: the state afterwards, and the reply. -/
def buildReplyIn (aead : Aead) (request : List UInt8) (peer : SocketAddr K)
    (recvTs : NtpTimestamp) (guard : ServerState K R) (clock : ClockReadings R)
    (random : SystemRandom) : ServerState K R × Option Reply :=
  let refused := ({ guard with clients := guard.clients.noteRefused }, none)
  if request.length < headerLen then refused
  else
    match NtpPacket.parse request with
    | .error _ => refused
    | .ok parsed =>
      -- never answer another server: that is how reflection starts
      if parsed.mode ≠ .client then refused
      else
        match clock.monoS with
        | none => (guard, none)
        | some nowMono =>
          let (clients, disposition, handle) := guard.clients.admitHandle (clientKey peer) nowMono
          let guard := { guard with clients := clients }
          match disposition with
          | .kissOfDeath => (guard, some ⟨.plain (kissOfDeath parsed recvTs), handle⟩)
          | .drop => (guard, none)
          | .respond => respond aead request parsed recvTs guard handle clock random

end

end RustyTime
