import RustyTime.Infra.Bytes
import RustyTime.Core.Ntp
import RustyTime.Nts.Aead

/-!
# NTS extension fields

`rusty_time-nts/src/ef.rs`: the fields after the NTP header, the client's protected request and
the check of the server's protected reply. A field is a 2-byte type, a 2-byte total length that
counts these four bytes, and a body padded with zeros to a multiple of 4.
-/

namespace RustyTime

open Infra.Bytes

namespace FieldType

def uniqueIdentifier : Nat := 0x0104
def ntsCookie : Nat := 0x0204
def ntsCookiePlaceholder : Nat := 0x0304
def ntsAuthenticator : Nat := 0x0404

end FieldType

def uniqueIdLen : Nat := 32
def nonceLen : Nat := 16

/-- No extension field is shorter. -/
def minEfLen : Nat := 16

inductive NtsError where
  | missingAuthenticator
  | authentication
  | uniqueIdMismatch
  | malformedField
  | nak
  | tooShort
deriving DecidableEq, Repr

/-- `next_multiple_of(4)`. -/
def nextMultipleOf4 (n : Nat) : Nat := (n + 3) / 4 * 4

namespace Ef

/-! ## Writing fields -/

/-- The total length of a field: padded, and raised to the minimum. -/
def fieldTotal (bodyLen : Nat) : Nat := max (nextMultipleOf4 (4 + bodyLen)) minEfLen

/-- `write_field`, what it appends. -/
def writeField (fieldType : Nat) (body : List UInt8) : List UInt8 :=
  toBe 2 fieldType ++ toBe 2 (fieldTotal body.length) ++ body
    ++ List.replicate (fieldTotal body.length - 4 - body.length) 0

/-- `write_field_parts`. -/
def writeFieldParts (fieldType : Nat) (parts : List (List UInt8)) : List UInt8 :=
  let bodyLen := (parts.map List.length).sum
  toBe 2 fieldType ++ toBe 2 (fieldTotal bodyLen) ++ parts.flatten
    ++ List.replicate (fieldTotal bodyLen - 4 - bodyLen) 0

/-- `write_zero_field`. -/
def writeZeroField (fieldType len : Nat) : List UInt8 :=
  toBe 2 fieldType ++ toBe 2 (fieldTotal len) ++ List.replicate (fieldTotal len - 4) 0

/-- `write_authenticator`. -/
def writeAuthenticator (nonce ciphertext : List UInt8) : List UInt8 :=
  let bodyLen := 4 + nextMultipleOf4 nonce.length + nextMultipleOf4 ciphertext.length
  toBe 2 FieldType.ntsAuthenticator ++ toBe 2 (fieldTotal bodyLen)
    ++ toBe 2 nonce.length ++ toBe 2 ciphertext.length
    ++ nonce ++ List.replicate (nextMultipleOf4 nonce.length - nonce.length) 0
    ++ ciphertext ++ List.replicate (nextMultipleOf4 ciphertext.length - ciphertext.length) 0
    ++ List.replicate (fieldTotal bodyLen - 4 - bodyLen) 0

/-! ## Reading fields -/

/-- `Field`. -/
structure Field where
  fieldType : Nat
  body : List UInt8
  /-- Offset of the field's first byte within the packet. -/
  offset : Nat
deriving DecidableEq

/-- The fields of `rest`, which starts at `offset`, as many as `fuel`. It stops at the first
malformed field. -/
def fieldsFrom : (fuel offset : Nat) → List UInt8 → List Field
  | 0, _, _ => []
  | fuel + 1, offset, rest =>
    if rest.length < 4 then []
    else
      let total := beNat ((rest.drop 2).take 2)
      if total < minEfLen ∨ total % 4 ≠ 0 ∨ rest.length < total then []
      else
        { fieldType := beNat (rest.take 2), body := (rest.take total).drop 4, offset := offset }
          :: fieldsFrom fuel (offset + total) (rest.drop total)

/-- `fields`: those after the header. Every field takes bytes, so the packet's length is fuel
enough. -/
def fields (packet : List UInt8) : List Field :=
  fieldsFrom packet.length (min headerLen packet.length) (packet.drop headerLen)

/-- The closure under `fields`: the field at the cursor, and the cursor after it. -/
def fieldsNext (packet : List UInt8) (cursor : Nat) : Option (Field × Nat) :=
  if packet.length < cursor then none
  else
    let rest := packet.drop cursor
    if rest.length < 4 then none
    else
      let total := beNat ((rest.drop 2).take 2)
      if total < minEfLen ∨ total % 4 ≠ 0 ∨ rest.length < total then none
      else
        some
          ({ fieldType := beNat (rest.take 2), body := (rest.take total).drop 4, offset := cursor },
            cursor + total)

/-- The nonce and the ciphertext of an authenticator's body. -/
def authenticatorParts (body : List UInt8) : Option (List UInt8 × List UInt8) :=
  if body.length < 4 then none
  else
    let nonceLen := beNat (body.take 2)
    let ctLen := beNat ((body.drop 2).take 2)
    let ctStart := 4 + nextMultipleOf4 nonceLen
    let ctEnd := ctStart + ctLen
    if nonceLen = 0 ∨ body.length < ctEnd then none
    else some ((body.drop 4).take nonceLen, (body.drop ctStart).take ctLen)

/-! ## The client -/

/-- `protect_request`. -/
def protectRequest (aead : Aead) (header : List UInt8) (uniqueId : Vector UInt8 32)
    (cookie : List UInt8) (extraCookies : Nat) (c2sKey : Vector UInt8 32)
    (nonce : Vector UInt8 16) : Except NtsError (List UInt8) :=
  let packet := header ++ writeField FieldType.uniqueIdentifier uniqueId.toList
    ++ writeField FieldType.ntsCookie cookie
    ++ (List.replicate extraCookies
      (writeZeroField FieldType.ntsCookiePlaceholder cookie.length)).flatten
  match aead.encrypt c2sKey [packet, nonce.toList] [] with
  | none => .error .authentication
  | some ciphertext => .ok (packet ++ writeAuthenticator nonce.toList ciphertext)

/-- What the loop of `verify_response` finds. -/
structure Found where
  uniqueOk : Bool
  authenticator : Option Field
  sawAny : Bool

/-- The loop of `verify_response`: nothing after the authenticator is looked at. -/
def findFrom (expectUniqueId : List UInt8) (found : Found) : List Field → Found
  | [] => found
  | field :: rest =>
    let found := { found with sawAny := true }
    if field.fieldType = FieldType.uniqueIdentifier then
      findFrom expectUniqueId { found with uniqueOk := field.body == expectUniqueId } rest
    else if field.fieldType = FieldType.ntsAuthenticator then
      { found with authenticator := some field }
    else findFrom expectUniqueId found rest

/-- The cookies among the fields of a decrypted payload. -/
def newCookies (plaintext : List UInt8) : List (List UInt8) :=
  (fieldsFrom plaintext.length 0 plaintext).filterMap fun field =>
    if field.fieldType = FieldType.ntsCookie then some field.body else none

/-- `verify_response`: the fresh cookies of the reply. -/
def verifyResponse (aead : Aead) (packet : List UInt8) (s2cKey : Vector UInt8 32)
    (expectUniqueId : Vector UInt8 32) : Except NtsError (List (List UInt8)) :=
  if packet.length < headerLen then .error .tooShort
  else
    let found := findFrom expectUniqueId.toList ⟨false, none, false⟩ (fields packet)
    if found.uniqueOk = false then .error .uniqueIdMismatch
    else
      match found.authenticator with
      | none => .error (if found.sawAny then .nak else .missingAuthenticator)
      | some field =>
        match authenticatorParts field.body with
        | none => .error .malformedField
        | some (nonce, ciphertext) =>
          match aead.decrypt s2cKey [packet.take field.offset, nonce] ciphertext with
          | none => .error .authentication
          | some plaintext => .ok (newCookies plaintext)

end Ef

end RustyTime
