import RustyTime.Daemon.SealedStore
import RustyTime.Nts.Cookie
import RustyTime.Nts.Ke

/-!
# Master keys at rest

`rusty_time-daemon/src/store.rs` and `server.rs`: the master keys of a server in three slots of its
store, and the key ring that a start makes of them. The system is a parameter: the file and its
salt, and the random bytes.
-/

namespace RustyTime

open Infra.Bytes

namespace Store

/-- `MASTER_KEY_SLOTS`. -/
def masterKeySlots : Nat := 3

/-- `StoredMasterKey`. -/
structure StoredMasterKey where
  id : UInt32
  key : Vector UInt8 32
deriving DecidableEq

namespace StoredMasterKey

def payload (key : StoredMasterKey) : List UInt8 := toBe 4 key.id.toNat ++ key.key.toList

theorem size_drop {plain : List UInt8} (h : plain.length = 36) :
    (plain.drop 4).toArray.size = 32 := by
  rw [List.size_toArray, List.length_drop, h]

/-- The key of an entry, if the entry is as long as one. -/
def ofPlain (plain : List UInt8) : Option StoredMasterKey :=
  if h : plain.length = 36 then
    some ⟨UInt32.ofNat (beNat (plain.take 4)), ⟨(plain.drop 4).toArray, size_drop h⟩⟩
  else none

end StoredMasterKey

/-- The entry of a slot. -/
def masterField (slot : Nat) : String := compoundKey "master" "self" (slot % masterKeySlots)

section

variable (aead : Aes256Gcm)

/-- `put_master_key`. -/
def putMasterKey (system : StoreSystem) (slot : Nat) (key : StoredMasterKey) : StoreM Unit :=
  putSealed aead system .keys (masterField slot) key.payload

/-- `get_master_key`. -/
def getMasterKey (slot : Nat) : StoreM (Option StoredMasterKey) := do
  match ← getSealed aead .keys (masterField slot) with
  | none => return none
  | some plain => return StoredMasterKey.ofPlain plain

/-- The loop of `all_master_keys`. -/
def masterKeysOf : List Nat → List StoredMasterKey → StoreM (List StoredMasterKey)
  | [], out => return out
  | slot :: slots, out => do
    match ← getMasterKey aead slot with
    | none => masterKeysOf slots out
    | some key => masterKeysOf slots (out ++ [key])

/-- `all_master_keys`. -/
def allMasterKeys : StoreM (List StoredMasterKey) :=
  masterKeysOf aead (List.range masterKeySlots) []

end

end Store

/-! ## The ring of a server -/

namespace ServeRing

/-- What `load_or_create_ring` fails with, before it is a text. -/
inductive RingError where
  /-- `--state` without a passphrase. -/
  | needsPassphrase
  | store (e : StoreError)
  | ke (e : KeError)

/-- What the system gives a start. -/
structure StartSystem where
  /-- The cipher that `Store::open` derives of the passphrase, with the salt beside the file. -/
  unlock : String → Except StoreError Aes256Gcm
  /-- The file of the store. -/
  file : Option (List UInt8)
  entries : StoreSystem
  /-- `fill_random`, for a new key. -/
  keyBytes : Option (Vector UInt8 32)
  /-- `fill_random`, for its id. -/
  idBytes : Option (Vector UInt8 4)

/-- What a start has made: the ring, the store if there is state, and the file if it wrote one. -/
structure Started where
  ring : KeyRing
  store : Option Store
  written : Option (List UInt8)

/-- `fresh_key_ring`. -/
def freshKeyRing (system : StartSystem) : Except KeError KeyRing :=
  match system.keyBytes, system.idBytes with
  | some key, some id =>
    .ok ((KeyRing.new 3).rotateIn ⟨UInt32.ofNat (beNat id.toList), key⟩)
  | _, _ => .error .exportFailed

/-- The keys of the store, rotated into the ring one after another. -/
def rotateStored (ring : KeyRing) (stored : List Store.StoredMasterKey) : KeyRing :=
  stored.foldl (fun ring k => ring.rotateIn ⟨k.id, k.key⟩) ring

/-- A start that finds no key: a new one, put into slot zero and flushed. -/
def mintRing (system : StartSystem) (aead : Aes256Gcm) (s : Store) : Except RingError Started :=
  match freshKeyRing system with
  | .error e => .error (.ke e)
  | .ok fresh =>
    match fresh.current with
    | none => .ok ⟨fresh, some s, none⟩
    | some k =>
      match (Store.putMasterKey aead system.entries 0 ⟨k.id, k.key⟩).run s with
      | .error e _ => .error (.store e)
      | .ok _ s =>
        match s.flush with
        | .error e => .error (.store e)
        | .ok (s, blob) => .ok ⟨fresh, some s, some blob⟩

/-- `load_or_create_ring`. -/
def loadOrCreateRing (system : StartSystem) (statePath statePassphrase : Option String) :
    Except RingError Started :=
  match statePath with
  | none =>
    match freshKeyRing system with
    | .error e => .error (.ke e)
    | .ok fresh => .ok ⟨fresh, none, none⟩
  | some _ =>
    match statePassphrase with
    | none => .error .needsPassphrase
    | some passphrase =>
      match system.unlock passphrase with
      | .error e => .error (.store e)
      | .ok aead =>
        match Store.openFile system.file with
        | .error e => .error (.store e)
        | .ok s =>
          match (Store.allMasterKeys aead).run s with
          | .error e _ => .error (.store e)
          | .ok stored s =>
            if stored = [] then mintRing system aead s
            else .ok ⟨rotateStored (KeyRing.new Store.masterKeySlots) stored, some s, none⟩

end ServeRing

end RustyTime
