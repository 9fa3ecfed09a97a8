import RustyTime.Nts.Ef

/-!
# Server-side NTS cookies

`rusty_time-nts/src/cookie.rs`: a cookie is the server's own sealed note of a session's keys,
`key_id (4) || nonce (16) || sealed (80)`. The key id selects the master key.
-/

namespace RustyTime

open Infra.Bytes

def cookieNonceLen : Nat := 16
def keyIdLen : Nat := 4

inductive CookieError where
  | malformed
  | unknownKeyId (id : UInt32)
  | authentication
  | badPayload
deriving DecidableEq, Repr

/-- One server master key. -/
structure MasterKey where
  id : UInt32
  key : Vector UInt8 32
deriving DecidableEq

/-- The master keys, oldest first. The last one mints. -/
structure KeyRing where
  keys : List MasterKey
  maxRetained : Nat

namespace KeyRing

/-- `KeyRing::new`. -/
def new (maxRetained : Nat) : KeyRing := ⟨[], max maxRetained 1⟩

/-- `rotate_in`: the oldest keys beyond the retention go. -/
def rotateIn (ring : KeyRing) (key : MasterKey) : KeyRing :=
  let keys := ring.keys ++ [key]
  { ring with keys := keys.drop (keys.length - ring.maxRetained) }

def current (ring : KeyRing) : Option MasterKey := ring.keys.getLast?

def byId (ring : KeyRing) (id : UInt32) : Option MasterKey := ring.keys.find? fun k => k.id = id

def keyIds (ring : KeyRing) : List UInt32 := ring.keys.map fun k => k.id

end KeyRing

namespace Cookie

/-- What a cookie seals: both keys. -/
def payload (keys : NtsKeys) : List UInt8 := keys.c2s.toList ++ keys.s2c.toList

/-- The part of a cookie in the clear, which is its associated data. -/
def header (master : MasterKey) (nonce : List UInt8) : List UInt8 :=
  toBe 4 master.id.toNat ++ nonce

/-- `mint`. -/
def mint (aead : Aead) (ring : KeyRing) (keys : NtsKeys) (nonce : Vector UInt8 16) :
    Except CookieError (List UInt8) :=
  match ring.current with
  | none => .error .malformed
  | some master =>
    let header := header master nonce.toList
    match aead.encrypt master.key [header] (payload keys) with
    | none => .error .authentication
    | some sealed => .ok (header ++ sealed)

/-- The loop of `mint_fields_into`, what it appends. -/
def mintFields (aead : Aead) (master : MasterKey) (keys : NtsKeys) :
    List (List UInt8) → Except CookieError (List UInt8)
  | [] => .ok []
  | nonce :: nonces =>
    let header := header master nonce
    match aead.encrypt master.key [header] (payload keys) with
    | none => .error .authentication
    | some sealed =>
      match mintFields aead master keys nonces with
      | .error e => .error e
      | .ok rest => .ok (Ef.writeFieldParts FieldType.ntsCookie [header, sealed] ++ rest)

/-- `mint_fields_into`. -/
def mintFieldsInto (aead : Aead) (ring : KeyRing) (keys : NtsKeys) (nonces : List (List UInt8)) :
    Except CookieError (List UInt8) :=
  match ring.current with
  | none => .error .malformed
  | some master => mintFields aead master keys nonces

/-- `redeem`. -/
def redeem (aead : Aead) (ring : KeyRing) (cookie : List UInt8) : Except CookieError NtsKeys :=
  if cookie.length < keyIdLen + cookieNonceLen + 16 then .error .malformed
  else
    let keyId := UInt32.ofNat (beNat (cookie.take 4))
    match ring.byId keyId with
    | none => .error (.unknownKeyId keyId)
    | some master =>
      let header := cookie.take (keyIdLen + cookieNonceLen)
      let sealed := cookie.drop (keyIdLen + cookieNonceLen)
      match aead.decrypt master.key [header] sealed with
      | none => .error .authentication
      | some payload =>
        if h : payload.length = 64 then
          .ok
            { c2s := ⟨(payload.take 32).toArray, by simp [h]⟩
              s2c := ⟨(payload.drop 32).toArray, by simp [h]⟩ }
        else .error .badPayload

end Cookie

end RustyTime
