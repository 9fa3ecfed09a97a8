import RustyTime.Daemon.NtsSession
import RustyTime.Nts.Ke

/-!
# Key establishment, the server's end

`rusty_time-daemon/src/server.rs`, `handle_ke`: one request in, one answer out. The connection
is what its reads return and the keys it exports; what is sent is the result.
-/

namespace RustyTime

open Infra.Bytes

/-- `KE_COOKIE_COUNT`. -/
def keCookieCount : Nat := 8

/-- Why a session ends without an answer. -/
inductive KeServerError where
  | io
  /-- Client sent an oversized NTS-KE request. -/
  | oversized
  | record (error : RecordError)
  | exportFailed
  /-- Server state poisoned. -/
  | poisoned
  | noRandomness
  | cookie (error : CookieError)
deriving DecidableEq

/-- What the server's end of a session depends on. -/
structure KeSession where
  reads : List KeRead
  /-- `export_server_keys`. -/
  exportKeys : Option NtsKeys
  /-- The key ring behind the lock. -/
  ring : Option KeyRing
  random : SystemRandom

/-- What the negotiation loop carries. -/
structure Negotiation where
  protoOk : Bool
  aeadOk : Bool
deriving DecidableEq

namespace Negotiation

/-- One record. Every other type is passed over. -/
def record (n : Negotiation) (r : Record) : Negotiation :=
  if r.recordType = RecordType.nextProtocol then
    { n with protoOk := offers r.body nextProtoNtpv4 }
  else if r.recordType = RecordType.aeadAlgorithm then
    { n with aeadOk := offers r.body aeadAesSivCmac256 }
  else n

/-- The negotiation loop. -/
def items (n : Negotiation) :
    List (Except RecordError Record) → Except KeServerError Negotiation
  | [] => .ok n
  | .error e :: _ => .error (.record e)
  | .ok r :: rest => (n.record r).items rest

end Negotiation

/-- The answer to a request that asks for something else: error 1, bad request. -/
def badRequest : List UInt8 :=
  let out := writeRecord [] true RecordType.error (toBe 2 1)
  writeRecord out true RecordType.endOfMessage []

/-- The cookies of an answer, `count` of them, from the `i`-th draw of randomness on. -/
def writeCookies (aead : Aead) (ring : KeyRing) (keys : NtsKeys) (random : SystemRandom) :
    (count i : Nat) → List UInt8 → Except KeServerError (List UInt8)
  | 0, _, out => .ok out
  | count + 1, i, out =>
    match random.fillRandom i 16 with
    | none => .error .noRandomness
    | some nonce =>
      match Cookie.mint aead ring keys nonce with
      | .error e => .error (.cookie e)
      | .ok cookie =>
        writeCookies aead ring keys random count (i + 1)
          (writeRecord out false RecordType.newCookie cookie)

/-- The answer that carries cookies. -/
def keAnswer (aead : Aead) (s : KeSession) (ntpPort : UInt16) : Except KeServerError (List UInt8) :=
  match s.exportKeys with
  | none => .error .exportFailed
  | some keys =>
    let out := writeRecord [] true RecordType.nextProtocol (toBe 2 nextProtoNtpv4.toNat)
    let out := writeRecord out true RecordType.aeadAlgorithm (toBe 2 aeadAesSivCmac256.toNat)
    let out :=
      if ntpPort ≠ 123 then
        writeRecord out false RecordType.portNegotiation (toBe 2 ntpPort.toNat)
      else out
    match s.ring with
    | none => .error .poisoned
    | some ring =>
      match writeCookies aead ring keys s.random keCookieCount 0 out with
      | .error e => .error e
      | .ok out => .ok (writeRecord out true RecordType.endOfMessage [])

/-- `handle_ke`: what is sent. -/
def handleKe (aead : Aead) (s : KeSession) (ntpPort : UInt16) :
    Except KeServerError (List UInt8) :=
  match readMessage (64 * 1024) KeServerError.oversized .io s.reads [] with
  | .error e => .error e
  | .ok buf =>
    match Negotiation.items ⟨false, false⟩ (recordItems buf) with
    | .error e => .error e
    | .ok n =>
      if n.protoOk = false ∨ n.aeadOk = false then .ok badRequest
      else keAnswer aead s ntpPort

end RustyTime
