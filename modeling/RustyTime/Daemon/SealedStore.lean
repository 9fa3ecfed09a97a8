import RustyTime.Daemon.Store
import RustyTime.Nts.Aead

/-!
# Sealed entries of the store

`rusty_time-daemon/src/store.rs`: cookies and client sessions, each entry sealed under its own
compound key. A call that fails leaves what it had already written. The cipher is a parameter,
and so is what the system gives a call: its random bytes, and whether the database takes a write.
-/

namespace RustyTime

open Infra.Bytes

/-- `Aes256Gcm` under the key of the store: a nonce, the message and the associated data. -/
structure Aes256Gcm where
  encrypt : Vector UInt8 12 → List UInt8 → List UInt8 → Option (List UInt8)
  decrypt : Vector UInt8 12 → List UInt8 → List UInt8 → Option (List UInt8)

/-- What the store takes for granted of the cipher: what was sealed opens, and a tag of 16 bytes
comes with it. -/
structure Aes256Gcm.Inverts (aead : Aes256Gcm) : Prop where
  opens : ∀ nonce msg aad sealed, aead.encrypt nonce msg aad = some sealed →
    aead.decrypt nonce sealed aad = some msg
  length : ∀ nonce msg aad sealed, aead.encrypt nonce msg aad = some sealed →
    sealed.length = msg.length + 16

/-- The tag of a message that hides nothing. -/
def Aes256Gcm.checksumTag (nonce : Vector UInt8 12) (msg aad : List UInt8) : List UInt8 :=
  toBe 16 (beNat (nonce.toList ++ aad ++ msg))

/-- A cipher that hides nothing: behind the message a checksum of all it depends on. -/
def Aes256Gcm.checksum : Aes256Gcm where
  encrypt nonce msg aad := some (msg ++ checksumTag nonce msg aad)
  decrypt nonce sealed aad :=
    let msg := sealed.take (sealed.length - 16)
    if sealed = msg ++ checksumTag nonce msg aad then some msg else none

theorem Aes256Gcm.checksum_inverts : Aes256Gcm.checksum.Inverts where
  opens nonce msg aad sealed h := by
    obtain rfl := Option.some.inj h
    have htag : (checksumTag nonce msg aad).length = 16 := length_toBe _ _
    have hmsg : (msg ++ checksumTag nonce msg aad).take
        ((msg ++ checksumTag nonce msg aad).length - 16) = msg := by
      rw [List.length_append, htag, Nat.add_sub_cancel]
      exact List.take_left
    unfold checksum
    dsimp only
    rw [hmsg, if_pos rfl]
  length nonce msg aad sealed h := by
    obtain rfl := Option.some.inj h
    rw [List.length_append, checksumTag, length_toBe]

/-- What the system gives a call, by the entry it writes. No call writes an entry twice. -/
structure StoreSystem where
  /-- `fill_random`, for the nonce of the entry. -/
  nonce : Collection → String → Option (Vector UInt8 12)
  /-- Whether `put_register` succeeds. -/
  takes : Collection → String → Bool

/-- A program on a store. What it has done stays done when it fails. -/
abbrev StoreM := EStateM StoreError Store

/-! ## Hexadecimal -/

/-- `hex`. -/
def hex (bytes : List UInt8) : String :=
  String.ofList (bytes.flatMap fun b => [(b.toNat / 16).digitChar, (b.toNat % 16).digitChar])

/-- `to_digit(16)` of a byte as a character. -/
def toDigit (b : UInt8) : Option Nat :=
  let n := b.toNat
  if 48 ≤ n ∧ n ≤ 57 then some (n - 48)
  else if 97 ≤ n ∧ n ≤ 102 then some (n - 87)
  else if 65 ≤ n ∧ n ≤ 70 then some (n - 55)
  else none

/-- The loop of `unhex`, pair by pair. -/
def unhexPairs : List UInt8 → Option (List UInt8)
  | high :: low :: rest => do
    let hi ← toDigit high
    let lo ← toDigit low
    let out ← unhexPairs rest
    some (UInt8.ofNat ((hi <<< 4) ||| lo) :: out)
  | _ => some []

/-- `unhex`. -/
def unhex (s : String) : Option (List UInt8) :=
  if (asBytes s).length % 2 ≠ 0 then none else unhexPairs (asBytes s)

namespace Store

/-- `MAX_COOKIES_PER_SERVER`. -/
def maxCookiesPerServer : Nat := 64

/-- `compound_key`. -/
def compoundKey (kind owner : String) (index : Nat) : String :=
  kind ++ "/" ++ owner ++ "/" ++ toString index

section

variable (aead : Aes256Gcm)

/-! ## One entry -/

/-- `seal`, with the nonce that was drawn. -/
def sealValue (nonce : Option (Vector UInt8 12)) (plaintext aad : List UInt8) :
    Except StoreError String :=
  match nonce with
  | none => .error (.crypto "no system randomness for nonce")
  | some nonce =>
    match aead.encrypt nonce plaintext aad with
    | none => .error (.crypto "AES-256-GCM seal failed")
    | some ciphertext => .ok (hex (nonce.toList ++ ciphertext))

/-- `open_value`. -/
def openValue (stored : String) (aad : List UInt8) : Except StoreError (List UInt8) :=
  match unhex stored with
  | none => .error (.corrupt "value is not hex")
  | some raw =>
    if h : raw.length < 12 + 16 then .error (.corrupt "value is too short to be sealed")
    else
      let nonce : Vector UInt8 12 := ⟨(raw.take 12).toArray, by simp; omega⟩
      match aead.decrypt nonce (raw.drop 12) aad with
      | none => .error (.crypto "value failed authentication")
      | some plaintext => .ok plaintext

/-- `put_raw`, under a system. -/
def writeRaw (system : StoreSystem) (collection : Collection) (key value : String) :
    StoreM Unit := do
  modify fun s => s.ensureField collection key
  if system.takes collection key then
    let s ← get
    let db ← MonadExcept.ofExcept (s.db.putRegister collection key value)
    set { s with db := db }
  else throw .sdk

/-- `put_sealed`. -/
def putSealed (system : StoreSystem) (collection : Collection) (key : String)
    (plaintext : List UInt8) : StoreM Unit := do
  let sealed ← MonadExcept.ofExcept
    (sealValue aead (system.nonce collection key) plaintext (asBytes key))
  writeRaw system collection key sealed

/-- `get_sealed`. The empty string is the tombstone. -/
def getSealed (collection : Collection) (key : String) : StoreM (Option (List UInt8)) := do
  modify fun s => s.ensureField collection key
  let s ← get
  let value ← MonadExcept.ofExcept (s.db.readRegister collection key)
  match value with
  | none => return none
  | some v =>
    if v = "" then return some []
    else
      let plaintext ← MonadExcept.ofExcept (openValue aead v (asBytes key))
      return some plaintext

/-! ## Cookies -/

/-- The entry of a server's `i`th cookie. -/
def cookieKey (server : String) (i : Nat) : String := compoundKey "cookie" server i

/-- The first loop of `put_cookies`: each cookie into its own entry, from the `i`th on. -/
def putEach (system : StoreSystem) (server : String) : (i : Nat) → List (List UInt8) → StoreM Unit
  | _, [] => return
  | i, cookie :: cookies => do
    putSealed aead system .cookies (cookieKey server i) cookie
    putEach system server (i + 1) cookies

/-- The second loop of `put_cookies`: `left` entries from the `i`th on become tombstones, up to
the first that is one already or is absent. -/
def sweepTail (system : StoreSystem) (server : String) : (left i : Nat) → StoreM Unit
  | 0, _ => return
  | left + 1, i => do
    match ← getSealed aead .cookies (cookieKey server i) with
    | none => return
    | some v =>
      if v = [] then return
      else
        writeRaw system .cookies (cookieKey server i) ""
        sweepTail system server left (i + 1)

/-- `put_cookies`. -/
def putCookies (system : StoreSystem) (server : String) (cookies : List (List UInt8)) :
    StoreM Unit := do
  let keep := min cookies.length maxCookiesPerServer
  putEach aead system server 0 (cookies.take keep)
  sweepTail aead system server (maxCookiesPerServer - keep) keep

/-- The loop of `get_cookies`. -/
def getCookiesFrom (server : String) : (left i : Nat) → List (List UInt8) →
    StoreM (List (List UInt8))
  | 0, _, out => return out
  | left + 1, i, out => do
    match ← getSealed aead .cookies (cookieKey server i) with
    | none => return out
    | some v => if v = [] then return out else getCookiesFrom server left (i + 1) (out ++ [v])

/-- `get_cookies`. -/
def getCookies (server : String) : StoreM (List (List UInt8)) :=
  getCookiesFrom aead server maxCookiesPerServer 0 []

/-! ## Client sessions -/

/-- `StoredClientSession`. -/
structure StoredClientSession where
  keys : NtsKeys
  cookies : List (List UInt8)
  ntpServer : String
  ntpPort : UInt16
deriving DecidableEq

/-- The entry of a host's keys. -/
def keyField (keHost : String) : String := compoundKey "client_keys" keHost 0

/-- The entry of a host's endpoint. -/
def metaField (keHost : String) : String := compoundKey "client_meta" keHost 0

/-- The text of an endpoint. -/
def metaText (ntpServer : String) (ntpPort : UInt16) : String :=
  ntpServer ++ " " ++ toString ntpPort.toNat

/-- `put_client_session`. -/
def putClientSession (system : StoreSystem) (keHost : String) (keys : NtsKeys)
    (cookies : List (List UInt8)) (ntpServer : String) (ntpPort : UInt16) : StoreM Unit := do
  putSealed aead system .keys (keyField keHost) (keys.c2s.toList ++ keys.s2c.toList)
  putSealed aead system .keys (metaField keHost) (asBytes (metaText ntpServer ntpPort))
  putCookies aead system keHost cookies

theorem size_take {raw : List UInt8} (h : raw.length = 64) : (raw.take 32).toArray.size = 32 := by
  rw [List.size_toArray, List.length_take, h]
  rfl

theorem size_drop {raw : List UInt8} (h : raw.length = 64) : (raw.drop 32).toArray.size = 32 := by
  rw [List.size_toArray, List.length_drop, h]

/-- The keys of a session entry, if it is as long as they are. -/
def keysOf (raw : List UInt8) : Option NtsKeys :=
  if h : raw.length = 64 then
    some ⟨⟨(raw.take 32).toArray, size_take h⟩, ⟨(raw.drop 32).toArray, size_drop h⟩⟩
  else none

/-- The endpoint in a meta entry: the first two pieces of its text. -/
def endpointOf (text : String) : Option (String × UInt16) :=
  match splitWhitespace text with
  | server :: port :: _ => (parseU16 port).map fun port => (server, port)
  | _ => none

/-- `get_client_session`. -/
def getClientSession (keHost : String) : StoreM (Option StoredClientSession) := do
  match ← getSealed aead .keys (keyField keHost) with
  | none => return none
  | some raw =>
    match keysOf raw with
    | none => return none
    | some keys =>
      match ← getSealed aead .keys (metaField keHost) with
      | none => return none
      | some metaRaw =>
        let text ← MonadExcept.ofExcept (text metaRaw "client meta is not utf-8")
        match endpointOf text with
        | none => return none
        | some (server, port) =>
          let cookies ← getCookies aead keHost
          if cookies = [] then return none
          else return some ⟨keys, cookies, server, port⟩

end

end Store

end RustyTime
