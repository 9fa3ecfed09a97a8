import RustyTime.Core.Text
import RustyTime.Nts.Aead
import RustyTime.Nts.Records

/-!
# Key establishment, the client's end

`rusty_time-nts/src/ke.rs`: what the client asks for, and what it makes of the answer. The TLS
stack is not modelled: a connection is what its reads return, the protocol it agreed on and the
keys it exports.
-/

namespace RustyTime

open Infra.Bytes

/-- `ALPN`, `ntske/1`. -/
def alpn : List UInt8 := [0x6E, 0x74, 0x73, 0x6B, 0x65, 0x2F, 0x31]

def aeadAesSivCmac256 : UInt16 := 15
def nextProtoNtpv4 : UInt16 := 0

/-- `MAX_KE_RESPONSE`. -/
def maxKeResponse : Nat := 64 * 1024

inductive KeError where
  | io
  /-- Server declined, with its code. -/
  | server (code : UInt16)
  /-- The server did not agree to what we require. -/
  | negotiation (what : String)
  /-- Response records were malformed or truncated. -/
  | malformed
  /-- TLS gave us no exported keying material. -/
  | exportFailed
deriving DecidableEq

/-! ## Reading a connection -/

/-- What one `read` returns. No bytes mean that the peer has closed. -/
inductive KeRead where
  | data (chunk : List UInt8)
  | unexpectedEof
  | failed

/-- `has_end_of_message`. -/
def hasEndOfMessage (buf : List UInt8) : Bool :=
  (recordItems buf).any fun item =>
    match item with
    | .ok record => record.recordType == RecordType.endOfMessage
    | .error _ => false

/-- The read loop of either end: until the peer closes or the message is whole. -/
def readMessage {ε : Type} (limit : Nat) (oversized failed : ε) :
    List KeRead → List UInt8 → Except ε (List UInt8)
  | [], buf => .ok buf
  | .data [] :: _, buf => .ok buf
  | .data (b :: bs) :: reads, buf =>
    let buf := buf ++ b :: bs
    if limit < buf.length then .error oversized
    else if hasEndOfMessage buf then .ok buf
    else readMessage limit oversized failed reads buf
  | .unexpectedEof :: _, buf => .ok buf
  | .failed :: _, _ => .error failed

/-! ## The records of an answer -/

/-- `as_chunks::<2>().0`, each as a number. -/
def beChunks : List UInt8 → List Nat
  | a :: b :: rest => beNat [a, b] :: beChunks rest
  | _ => []

/-- Whether a list of 16-bit numbers has one of them. -/
def offers (body : List UInt8) (value : UInt16) : Bool := (beChunks body).any (· = value.toNat)

/-- `client_request`. -/
def clientRequest : List UInt8 :=
  let out := writeRecord [] true RecordType.nextProtocol (toBe 2 nextProtoNtpv4.toNat)
  let out := writeRecord out true RecordType.aeadAlgorithm (toBe 2 aeadAesSivCmac256.toNat)
  writeRecord out true RecordType.endOfMessage []

/-- `Parsed`. -/
structure Parsed where
  cookies : List (List UInt8)
  ntpServer : String
  ntpPort : UInt16
deriving DecidableEq

/-- What the loop of `parse_response` carries. -/
structure Parsing where
  parsed : Parsed
  protoOk : Bool
  aeadOk : Bool

/-- The code of an error record. -/
def errorCode (body : List UInt8) : UInt16 :=
  if 2 ≤ body.length then UInt16.ofNat (beNat (body.take 2)) else 65535

/-- One record that is not END_OF_MESSAGE. -/
def Parsing.record (p : Parsing) (r : Record) : Except KeError Parsing :=
  if r.recordType = RecordType.error then .error (.server (errorCode r.body))
  else if r.recordType = RecordType.warning then .ok p
  else if r.recordType = RecordType.nextProtocol then
    .ok { p with protoOk := offers r.body nextProtoNtpv4 }
  else if r.recordType = RecordType.aeadAlgorithm then
    .ok { p with aeadOk := offers r.body aeadAesSivCmac256 }
  else if r.recordType = RecordType.newCookie then
    .ok { p with parsed := { p.parsed with cookies := p.parsed.cookies ++ [r.body] } }
  else if r.recordType = RecordType.serverNegotiation then
    match fromUtf8 r.body with
    | none => .error .malformed
    | some server => .ok { p with parsed := { p.parsed with ntpServer := server } }
  else if r.recordType = RecordType.portNegotiation then
    if 2 ≤ r.body.length then
      .ok { p with
        parsed := { p.parsed with ntpPort := UInt16.ofNat (beNat (r.body.take 2)) } }
    else .ok p
  else if r.critical then .error (.negotiation "unrecognized critical record")
  else .ok p

/-- The loop of `parse_response`. -/
def Parsing.items (p : Parsing) : List (Except RecordError Record) → Except KeError Parsing
  | [] => .ok p
  | .error _ :: _ => .error .malformed
  | .ok r :: rest =>
    if r.recordType = RecordType.endOfMessage then .ok p
    else
      match p.record r with
      | .error e => .error e
      | .ok p => p.items rest

/-- `parse_response`. The port of the exchange itself is not used. -/
def parseResponse (buf : List UInt8) (host : String) (_kePort : UInt16) : Except KeError Parsed :=
  match Parsing.items ⟨⟨[], host, 123⟩, false, false⟩ (recordItems buf) with
  | .error e => .error e
  | .ok p =>
    if p.protoOk = false then .error (.negotiation "server did not accept NTPv4")
    else if p.aeadOk = false then
      .error (.negotiation "server did not accept AES-SIV-CMAC-256")
    else if p.parsed.cookies = [] then .error (.negotiation "server sent no cookies")
    else .ok p.parsed

/-! ## The exchange -/

/-- An established connection. -/
structure KeConnection where
  reads : List KeRead
  alpnProtocol : Option (List UInt8)
  /-- `export_key`, for the client's direction and the server's. -/
  exportKey : UInt8 → Option (Vector UInt8 32)

/-- `KeResult`. -/
structure KeResult where
  keys : NtsKeys
  parsed : Parsed

/-- `establish_with_config`, from the request on. -/
def establish (conn : KeConnection) (host : String) (port : UInt16) : Except KeError KeResult :=
  match readMessage maxKeResponse KeError.malformed .io conn.reads [] with
  | .error e => .error e
  | .ok buf =>
    if conn.alpnProtocol ≠ some alpn then
      .error (.negotiation "peer did not select ALPN ntske/1")
    else
      match parseResponse buf host port with
      | .error e => .error e
      | .ok parsed =>
        match conn.exportKey 0, conn.exportKey 1 with
        | some c2s, some s2c => .ok ⟨⟨c2s, s2c⟩, parsed⟩
        | _, _ => .error .exportFailed

end RustyTime
