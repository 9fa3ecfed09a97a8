import Mathlib.Data.List.Sort
import Mathlib.Logic.Function.Basic
import RustyTime.Core.Text
import RustyTime.Infra.Bytes
import RustyTime.Infra.Cursor

/-!
# The store and its record log

`rusty_time-daemon/src/store.rs`: registers of a database under compound keys, and the log that
carries them over a restart. Values are sealed before they come here and opened after
(`Daemon/SealedStore.lean`), so a value is any string. The database is a map with declared
fields, as the store uses it: reading or writing a field that is not declared is an error. A file
is the bytes last written to it.
-/

namespace RustyTime

open Infra.Bytes
open Infra.Cursor (bind_eq_ok length_of_take)

/-- `COLLECTIONS`, by name. -/
inductive Collection where
  | drift
  | cookies
  | keys
deriving DecidableEq, Repr

/-- `COLLECTIONS`. -/
def collections : List Collection := [.drift, .cookies, .keys]

inductive StoreError where
  | crypto (what : String)
  /-- The database refused. -/
  | sdk
  /-- The file exists but is not one of ours, or is truncated. -/
  | corrupt (what : String)
deriving DecidableEq

/-! ## The database -/

structure Database where
  /-- The fields declared in each collection. -/
  schema : Collection → List String
  registers : Collection → String → Option String

namespace Database

def empty : Database := ⟨fun _ => [], fun _ _ => none⟩

/-- `define` replaces the schema only. -/
def define (db : Database) (collection : Collection) (fields : List String) : Database :=
  { db with schema := Function.update db.schema collection fields }

def putRegister (db : Database) (collection : Collection) (key value : String) :
    Except StoreError Database :=
  if key ∈ db.schema collection then
    let values := Function.update (db.registers collection) key (some value)
    .ok { db with registers := Function.update db.registers collection values }
  else .error .sdk

def readRegister (db : Database) (collection : Collection) (key : String) :
    Except StoreError (Option String) :=
  if key ∈ db.schema collection then .ok (db.registers collection key) else .error .sdk

end Database

/-! ## The store -/

structure Store where
  db : Database
  /-- Field names declared per collection, in order. -/
  fields : Collection → List String

namespace Store

/-- A store before its file is read. -/
def empty : Store := ⟨.empty, fun _ => []⟩

/-- `ensure_field`. -/
def ensureField (s : Store) (collection : Collection) (field : String) : Store :=
  if field ∈ s.fields collection then s
  else
    let set := (s.fields collection).orderedInsert (· ≤ ·) field
    { db := s.db.define collection set, fields := Function.update s.fields collection set }

/-- `put_raw`: a value verbatim, sealed or the empty tombstone. -/
def putRaw (s : Store) (collection : Collection) (key value : String) :
    Except StoreError Store := do
  let s := s.ensureField collection key
  let db ← s.db.putRegister collection key value
  return { s with db := db }

/-- `get_raw`. -/
def getRaw (s : Store) (collection : Collection) (key : String) :
    Except StoreError (Store × Option String) := do
  let s := s.ensureField collection key
  let value ← s.db.readRegister collection key
  return (s, value)

/-! ## Writing the log -/

/-- `u16 collection_index | u32 key_len | key | u32 value_len | value`. -/
def record (index : Nat) (key value : String) : List UInt8 :=
  toBe 2 index ++ toBe 4 (asBytes key).length ++ asBytes key
    ++ toBe 4 (asBytes value).length ++ asBytes value

/-- The records of one collection. A field with no value leaves none. -/
def flushKeys (index : Nat) (collection : Collection) :
    Store → List String → Except StoreError (Store × List UInt8)
  | s, [] => return (s, [])
  | s, key :: keys => do
    let (s, value) ← s.getRaw collection key
    let (s, blob) ← flushKeys index collection s keys
    match value with
    | none => return (s, blob)
    | some value => return (s, record index key value ++ blob)

/-- The records of the plan. -/
def flushPlan : Store → List (Nat × Collection × List String) →
    Except StoreError (Store × List UInt8)
  | s, [] => return (s, [])
  | s, (index, collection, keys) :: plan => do
    let (s, blob) ← flushKeys index collection s keys
    let (s, rest) ← flushPlan s plan
    return (s, blob ++ rest)

/-- `flush`: the store afterwards, and the file it wrote. -/
def flush (s : Store) : Except StoreError (Store × List UInt8) :=
  flushPlan s (collections.zipIdx.map fun (c, i) => (i, c, s.fields c))

/-! ## Reading it back -/

/-- The closure `take` of `load_from_disk`, the cursor being what is left of the file. -/
def take (rest : List UInt8) (n : Nat) : Except StoreError (List UInt8 × List UInt8) :=
  Infra.Cursor.take (.corrupt "store file ended mid-record") rest n

/-- `COLLECTIONS.get(index)`. -/
def collectionAt (index : Nat) : Except StoreError Collection :=
  match collections[index]? with
  | some collection => .ok collection
  | none => .error (.corrupt "store names an unknown collection")

/-- A string, or what is not one. -/
def text (bs : List UInt8) (what : String) : Except StoreError String :=
  match fromUtf8 bs with
  | some s => .ok s
  | none => .error (.corrupt what)

/-- One turn of the loop of `load_from_disk`: the entry, and what follows it. -/
def readRecord (rest : List UInt8) :
    Except StoreError ((Collection × String × String) × List UInt8) := do
  let (index, rest) ← take rest 2
  let collection ← collectionAt (beNat index)
  let (keyLen, rest) ← take rest 4
  let (key, rest) ← take rest (beNat keyLen)
  let key ← text key "entry key is not utf-8"
  let (valueLen, rest) ← take rest 4
  let (value, rest) ← take rest (beNat valueLen)
  let value ← text value "entry value is not utf-8"
  return ((collection, key, value), rest)

/-- The loop of `load_from_disk` ends: every record takes bytes. -/
theorem readRecord_length {rest : List UInt8} {out : (Collection × String × String) × List UInt8}
    (h : readRecord rest = .ok out) : out.2.length < rest.length := by
  obtain ⟨⟨index, rest₁⟩, hindex, h⟩ := bind_eq_ok.mp h
  obtain ⟨collection, -, h⟩ := bind_eq_ok.mp h
  obtain ⟨⟨keyLen, rest₂⟩, hkeyLen, h⟩ := bind_eq_ok.mp h
  obtain ⟨⟨key, rest₃⟩, hkey, h⟩ := bind_eq_ok.mp h
  obtain ⟨keyText, -, h⟩ := bind_eq_ok.mp h
  obtain ⟨⟨valueLen, rest₄⟩, hvalueLen, h⟩ := bind_eq_ok.mp h
  obtain ⟨⟨value, rest₅⟩, hvalue, h⟩ := bind_eq_ok.mp h
  obtain ⟨valueText, -, h⟩ := bind_eq_ok.mp h
  cases h
  have h₁ := length_of_take hindex
  have h₂ := length_of_take hkeyLen
  have h₃ := length_of_take hkey
  have h₄ := length_of_take hvalueLen
  have h₅ := length_of_take hvalue
  dsimp only at h₁ h₂ h₃ h₄ h₅ ⊢
  omega

/-- The loop of `load_from_disk`. -/
def loadFrom (s : Store) (rest : List UInt8) : Except StoreError Store :=
  if rest = [] then .ok s
  else
    match _h : readRecord rest with
    | .error e => .error e
    | .ok ((collection, key, value), rest') =>
      match s.putRaw collection key value with
      | .error e => .error e
      | .ok s => loadFrom s rest'
termination_by rest.length
decreasing_by exact readRecord_length _h

/-- `open`, as far as the file is concerned: `load_from_disk` into an empty store. -/
def openFile : Option (List UInt8) → Except StoreError Store
  | none => .ok empty
  | some blob => loadFrom empty blob

end Store

end RustyTime
