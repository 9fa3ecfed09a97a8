import RustyTime.Infra.Slice
import RustyTime.Nts.Ef

/-!
# The readers of an authenticator, index by index

`rusty_time-nts/src/ef.rs` and `rusty_time-daemon/src/server.rs`: the reading of extension fields,
of an authenticator on either side and of the decrypted payload, with every index expression of the
source. `xs[i]` and `&xs[a..b]` fault out of range, `get` answers `None`.
-/

namespace RustyTime.Indexed

open Infra.Bytes Infra.Slice Ef

/-- `u16::from_be_bytes([xs[i], xs[i + 1]])`. -/
def u16At (xs : List UInt8) (i : Nat) : Except Fault Nat := do
  let high ← index xs i
  let low ← index xs (i + 1)
  pure (beNat [high, low])

/-! ## Fields -/

/-- The closure under `fields`: the field at `cursor`, and the cursor after it. -/
def fieldsNext (packet : List UInt8) (cursor : Nat) : Except Fault (Option (Field × Nat)) :=
  match get packet cursor packet.length with
  | none => pure none
  | some rest =>
    if rest.length < 4 then pure none
    else do
      let fieldType ← u16At rest 0
      let total ← u16At rest 2
      if total < minEfLen ∨ total % 4 ≠ 0 ∨ rest.length < total then pure none
      else
        let body ← slice rest 4 total
        pure (some (⟨fieldType, body, cursor⟩, cursor + total))

/-- The fields from `cursor` on, as many as `fuel`. -/
def fieldsFrom (packet : List UInt8) : (fuel cursor : Nat) → Except Fault (List Field)
  | 0, _ => pure []
  | fuel + 1, cursor => do
    match ← fieldsNext packet cursor with
    | none => pure []
    | some (field, cursor) =>
      let later ← fieldsFrom packet fuel cursor
      pure (field :: later)

/-- `fields`. -/
def fields (packet : List UInt8) : Except Fault (List Field) :=
  fieldsFrom packet packet.length (min headerLen packet.length)

/-! ## The two readers of an authenticator -/

/-- What `aead::open` is given: `&[aad, nonce]` and the ciphertext. -/
structure OpenArgs where
  aad : List UInt8
  nonce : List UInt8
  ciphertext : List UInt8
deriving DecidableEq, Repr

/-- `verify_response`, from the body of the authenticator to `aead::open`. -/
def responseArgs (packet body : List UInt8) (offset : Nat) : Except Fault (Option OpenArgs) :=
  if body.length < 4 then pure none
  else do
    let nonceLen ← u16At body 0
    let ctLen ← u16At body 2
    let nonceEnd := 4 + nonceLen
    let ctStart := 4 + nextMultipleOf4 nonceLen
    let ctEnd := ctStart + ctLen
    if nonceLen = 0 ∨ body.length < ctEnd then pure none
    else
      let nonce ← slice body 4 nonceEnd
      let ciphertext ← slice body ctStart ctEnd
      let aad ← slice packet 0 offset
      pure (some ⟨aad, nonce, ciphertext⟩)

/-- `usize::checked_add`. -/
def checkedAdd (a b : Nat) : Option Nat := if a + b < 2 ^ 64 then some (a + b) else none

/-- `verify_client_authenticator`, up to `aead::open`. -/
def requestArgs (request : List UInt8) (auth : Field) : Except Fault (Option OpenArgs) :=
  if auth.body.length < 4 then pure none
  else do
    let nonceLen ← u16At auth.body 0
    let ctLen ← u16At auth.body 2
    let ctStart := 4 + nextMultipleOf4 nonceLen
    pure do
      let ctEnd ← checkedAdd ctStart ctLen
      if nonceLen = 0 ∨ auth.body.length < ctEnd then none
      else
        let nonce ← get auth.body 4 (4 + nonceLen)
        let ciphertext ← get auth.body ctStart ctEnd
        let aad ← get request 0 auth.offset
        some ⟨aad, nonce, ciphertext⟩

/-- `verify_client_authenticator`. -/
def verifyClientAuthenticator (aead : Aead) (request : List UInt8) (auth : Field)
    (c2s : Vector UInt8 32) : Except Fault Bool := do
  match ← requestArgs request auth with
  | none => pure false
  | some args => pure (aead.decrypt c2s [args.aad, args.nonce] args.ciphertext).isSome

/-! ## The client -/

/-- The loop of `verify_response` over the decrypted payload, from `at`. -/
def cookieLoop (plaintext : List UInt8) (start : Nat) (newCookies : List (List UInt8)) :
    Except Fault (List (List UInt8)) :=
  if start + 4 ≤ plaintext.length then do
    let ft ← u16At plaintext start
    let total ← u16At plaintext (start + 2)
    if total < minEfLen ∨ total % 4 ≠ 0 ∨ plaintext.length < start + total then pure newCookies
    else if ft = FieldType.ntsCookie then
      let cookie ← slice plaintext (start + 4) (start + total)
      cookieLoop plaintext (start + total) (newCookies ++ [cookie])
    else cookieLoop plaintext (start + total) newCookies
  else pure newCookies
termination_by plaintext.length - start
decreasing_by
  all_goals
    unfold minEfLen at *
    omega

/-- `verify_response`. -/
def verifyResponse (aead : Aead) (packet : List UInt8) (s2cKey : Vector UInt8 32)
    (expectUniqueId : Vector UInt8 32) :
    Except Fault (Except NtsError (List (List UInt8))) :=
  if packet.length < headerLen then pure (.error .tooShort)
  else do
    let found := findFrom expectUniqueId.toList ⟨false, none, false⟩ (← fields packet)
    if found.uniqueOk = false then pure (.error .uniqueIdMismatch)
    else
      match found.authenticator with
      | none => pure (.error (if found.sawAny then .nak else .missingAuthenticator))
      | some field =>
        match ← responseArgs packet field.body field.offset with
        | none => pure (.error .malformedField)
        | some args =>
          match aead.decrypt s2cKey [args.aad, args.nonce] args.ciphertext with
          | none => pure (.error .authentication)
          | some plaintext =>
            let newCookies ← cookieLoop plaintext 0 []
            pure (.ok newCookies)

end RustyTime.Indexed
