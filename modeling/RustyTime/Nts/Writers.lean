import RustyTime.Nts.Cookie

/-!
# The writers, into the caller's buffer

`rusty_time-nts/src/ef.rs` and `cookie.rs` write fields straight onto the end of a buffer. The
functions here take that buffer and give it back; what they append is in `Ef` and `Cookie`.
-/

namespace RustyTime

open Infra.Bytes

/-- `Vec::resize`. -/
def resize (v : List UInt8) (newLen : Nat) (value : UInt8) : List UInt8 :=
  v.take newLen ++ List.replicate (newLen - v.length) value

namespace Ef

/-- `write_field`. -/
def writeFieldTo (out : List UInt8) (fieldType : Nat) (body : List UInt8) : List UInt8 :=
  let total := max (nextMultipleOf4 (4 + body.length)) minEfLen
  let out := out ++ toBe 2 fieldType
  let out := out ++ toBe 2 total
  let out := out ++ body
  resize out (out.length + (total - 4 - body.length)) 0

/-- `write_field_parts`. -/
def writeFieldPartsTo (out : List UInt8) (fieldType : Nat) (parts : List (List UInt8)) :
    List UInt8 :=
  let bodyLen := (parts.map List.length).sum
  let total := max (nextMultipleOf4 (4 + bodyLen)) minEfLen
  let out := out ++ toBe 2 fieldType
  let out := out ++ toBe 2 total
  let out := parts.foldl (fun out part => out ++ part) out
  resize out (out.length + (total - 4 - bodyLen)) 0

/-- `write_zero_field`. -/
def writeZeroFieldTo (out : List UInt8) (fieldType len : Nat) : List UInt8 :=
  let total := max (nextMultipleOf4 (4 + len)) minEfLen
  let out := out ++ toBe 2 fieldType
  let out := out ++ toBe 2 total
  resize out (out.length + total - 4) 0

/-- `write_authenticator`. -/
def writeAuthenticatorTo (out nonce ciphertext : List UInt8) : List UInt8 :=
  let bodyLen := 4 + nextMultipleOf4 nonce.length + nextMultipleOf4 ciphertext.length
  let total := max (nextMultipleOf4 (4 + bodyLen)) minEfLen
  let out := out ++ toBe 2 FieldType.ntsAuthenticator
  let out := out ++ toBe 2 total
  let out := out ++ toBe 2 nonce.length
  let out := out ++ toBe 2 ciphertext.length
  let out := out ++ nonce
  let out := resize out (out.length + nextMultipleOf4 nonce.length - nonce.length) 0
  let out := out ++ ciphertext
  let out := resize out (out.length + nextMultipleOf4 ciphertext.length - ciphertext.length) 0
  resize out (out.length + (total - 4 - bodyLen)) 0

/-- `authenticator_field`. -/
def authenticatorField (nonce ciphertext : List UInt8) : List UInt8 :=
  writeAuthenticatorTo [] nonce ciphertext

end Ef

/-- `Sealer`: a cipher with its key schedule expanded. `sealInPlace` gives what is in the buffer
afterwards, or a refusal. -/
structure Sealer (S : Type) where
  new : Vector UInt8 32 → S
  sealInPlace : S → List (List UInt8) → List UInt8 → S × Option (List UInt8)

namespace Cookie

variable {S : Type}

/-- The loop of `mint_fields_into`. The cipher, the header and the scratch buffer `sealed` are
those of the turn before. -/
def mintLoop (sealer : Sealer S) (payload : List UInt8) :
    List (Vector UInt8 16) → (cipher : S) → (header sealed out : List UInt8) →
      List UInt8 × Except CookieError Unit
  | [], _, _, _, out => (out, .ok ())
  | nonce :: nonces, cipher, header, sealed, out =>
    let header := copyAt header keyIdLen nonce.toList
    -- `clear` keeps the buffer and nothing in it
    let sealed := sealed.take 0
    let sealed := sealed ++ payload
    match sealer.sealInPlace cipher [header] sealed with
    | (_, none) => (out, .error .authentication)
    | (cipher, some sealed) =>
      mintLoop sealer payload nonces cipher header sealed
        (Ef.writeFieldPartsTo out FieldType.ntsCookie [header, sealed])

/-- `mint_fields_into`: the buffer afterwards, and the result. -/
def mintFieldsTo (sealer : Sealer S) (ring : KeyRing) (keys : NtsKeys)
    (nonces : List (Vector UInt8 16)) (out : List UInt8) : List UInt8 × Except CookieError Unit :=
  match ring.current with
  | none => (out, .error .malformed)
  | some master =>
    let payload := List.replicate 64 0
    let payload := copyAt payload 0 keys.c2s.toList
    let payload := copyAt payload 32 keys.s2c.toList
    let header := List.replicate (keyIdLen + cookieNonceLen) 0
    let header := copyAt header 0 (toBe 4 master.id.toNat)
    mintLoop sealer payload nonces (sealer.new master.key) header [] out

end Cookie

end RustyTime
