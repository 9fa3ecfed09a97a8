import RustyTime.Daemon.SealedStore
import RustyTime.Infra.Program
import RustyTime.Infra.Scan
import RustyTime.Spec.Store

/-!
# What sealed entries hold

A store stands for the map of its registers. An entry of the map holds nothing, a value, or the
tombstone; a server's cookies are read from its entries up to the first without a cookie, and a
client session from three kinds of entries. A save writes them all, one by one.
-/

namespace RustyTime.Store

open Infra.Program Infra.Scan

/-- The store holds the map `m`, and its schema is what it declared. -/
structure Stands (s : Store) (m : Contents) : Prop where
  schema : s.db.schema = s.fields
  registers : s.db.registers = m

/-- The schema is what was declared. -/
def Defined (s : Store) : Prop := s.db.schema = s.fields

namespace Contents

def put (m : Contents) (collection : Collection) (key value : String) : Contents :=
  Function.update m collection (Function.update (m collection) key (some value))

section

variable (aead : Aes256Gcm) (m : Contents)

/-- What an entry holds; a tombstone holds the empty value. -/
def entry (collection : Collection) (key : String) : Except StoreError (Option (List UInt8)) :=
  match m collection key with
  | none => .ok none
  | some v =>
    if v = "" then .ok (some [])
    else
      match openValue aead v (asBytes key) with
      | .ok plaintext => .ok (some plaintext)
      | .error e => .error e

/-- The cookie of an entry. An empty value is none. -/
def cookie (server : String) (i : Nat) : Except StoreError (Option (List UInt8)) :=
  match m.entry aead .cookies (cookieKey server i) with
  | .ok (some v) => .ok (if v ≠ [] then some v else none)
  | .ok none => .ok none
  | .error e => .error e

/-- The cookies of a server. -/
def cookies (server : String) : Except StoreError (List (List UInt8)) :=
  scan (m.cookie aead server) maxCookiesPerServer 0

/-- The endpoint of a session. -/
def endpoint (host : String) : Except StoreError (Option (String × UInt16)) := do
  match ← m.entry aead .keys (metaField host) with
  | none => return none
  | some raw =>
    let text ← text raw "client meta is not utf-8"
    return endpointOf text

/-- The session of a host. -/
def session (host : String) : Except StoreError (Option StoredClientSession) := do
  match (← m.entry aead .keys (keyField host)).bind keysOf with
  | none => return none
  | some keys =>
    match ← m.endpoint aead host with
    | none => return none
    | some (server, port) =>
      let cookies ← m.cookies aead host
      return if cookies = [] then none else some ⟨keys, cookies, server, port⟩

end

end Contents

/-! ## Calls on a store -/

/-- What `get_cookies` answers. -/
def cookiesNow (aead : Aes256Gcm) (s : Store) (server : String) :
    Except StoreError (List (List UInt8)) := answerOf ((getCookies aead server).run s)

/-- What `get_client_session` answers. -/
def sessionNow (aead : Aes256Gcm) (s : Store) (host : String) :
    Except StoreError (Option StoredClientSession) :=
  answerOf ((getClientSession aead host).run s)

/-- The store with another value in a register. -/
def damage (s : Store) (collection : Collection) (key value : String) : Store :=
  { s with db := { s.db with
    registers := Contents.put s.db.registers collection key value } }

/-- The system and the cipher let an entry be written. -/
def Accepts (aead : Aes256Gcm) (system : StoreSystem) (collection : Collection) (key : String)
    (plaintext : List UInt8) : Prop :=
  (sealValue aead (system.nonce collection key) plaintext (asBytes key)).isOk = true ∧
    system.takes collection key = true

/-- The cookies of a batch that are kept. -/
def kept (batch : List (List UInt8)) : List (List UInt8) := batch.take maxCookiesPerServer

/-! ## Saves -/

/-- One call of `put_client_session`, with what the system gave it. -/
structure Save where
  host : String
  keys : NtsKeys
  cookies : List (List UInt8)
  ntpServer : String
  ntpPort : UInt16
  system : StoreSystem

namespace Save

variable (aead : Aes256Gcm) (save : Save)

/-- The store after the call, whether it failed or not. -/
def step (s : Store) (save : Save) : Store :=
  stateOf ((putClientSession aead save.system save.host save.keys save.cookies save.ntpServer
    save.ntpPort).run s)

def AcceptsKeys : Prop :=
  Accepts aead save.system .keys (keyField save.host)
    (save.keys.c2s.toList ++ save.keys.s2c.toList)

def AcceptsMeta : Prop :=
  Accepts aead save.system .keys (metaField save.host)
    (asBytes (metaText save.ntpServer save.ntpPort))

/-- The first cookie that is not written, or the end of those kept, is the `i`th. -/
structure StopsAt (i : Nat) : Prop where
  le : i ≤ (kept save.cookies).length
  before : ∀ j (h : j < (kept save.cookies).length), j < i →
    Accepts aead save.system .cookies (cookieKey save.host j) (kept save.cookies)[j]
  here : ∀ h : i < (kept save.cookies).length,
    ¬Accepts aead save.system .cookies (cookieKey save.host i) (kept save.cookies)[i]

/-- The call leaves no entry of an earlier one to be read with its own. If the endpoint is not
written after the keys, there is none, or no cookie, in the store. If they both are, then the
endpoint does not read back, or where the call stops writing cookies there is none to go on with:
one of its own was empty, or they fill all the entries, or the entry there has no cookie, or it is
the tail's first and becomes a tombstone. -/
structure Clean (m : Contents) : Prop where
  endpoint : save.AcceptsKeys aead → ¬save.AcceptsMeta aead →
    m.endpoint aead save.host = .ok none ∨ m.cookie aead save.host 0 = .ok none
  cookies : save.AcceptsKeys aead → save.AcceptsMeta aead → ∀ i, save.StopsAt aead i →
    endpointOf (metaText save.ntpServer save.ntpPort) = none ∨
      [] ∈ (kept save.cookies).take i ∨ i = maxCookiesPerServer ∨
      m.cookie aead save.host i = .ok none ∨
      i = (kept save.cookies).length ∧ save.system.takes .cookies (cookieKey save.host i) = true

/-- The parts of a session all come from the call. -/
structure Gives (session : StoredClientSession) : Prop where
  keys : session.keys = save.keys
  endpoint : endpointOf (metaText save.ntpServer save.ntpPort) =
    some (session.ntpServer, session.ntpPort)
  cookies : session.cookies <+: save.cookies

end Save

end RustyTime.Store
