import RustyTime.Daemon.Merge
import RustyTime.Spec.SealedStore

/-!
# A store that merges replicas

A run of the store writes, reads, merges and flushes, and goes on when one of these fails. What a
flush should write is every value the store holds; what it does write are the fields declared.
-/

namespace RustyTime.Store

open Infra.Program

/-- Every value stands in a declared field. -/
def Covered (s : Store) : Prop := ∀ c k, s.db.registers c k ≠ none → k ∈ s.fields c

/-- The strings of the store fit their length prefix. -/
def Fits (s : Store) : Prop := ∀ c k v, s.db.registers c k = some v →
  (asBytes k).length < 2 ^ 32 ∧ (asBytes v).length < 2 ^ 32

/-- What a flush writes is read back as the store, key by key. -/
def Restored (s : Store) : Prop := ∃ blob s', s.flush = .ok (s, blob) ∧
  openFile (some blob) = .ok s' ∧ ∀ c k, s'.value c k = s.value c k

/-- The collections a merge takes in whole, up to one that is refused. -/
def taken (system : MergeSystem) (other : Replica) : List Collection → List Collection
  | [] => []
  | collection :: rest =>
    if (other.exported collection).isEmpty = false then
      match system.ends collection with
      | .done => collection :: taken system other rest
      | .refused => []
      | .panicked => taken system other rest
    else collection :: taken system other rest

/-- A call on the store, with what the system gave it. -/
inductive Call where
  /-- A value written as it is, sealed or a tombstone. -/
  | put (system : StoreSystem) (collection : Collection) (key value : String)
  | get (collection : Collection) (key : String)
  | merge (system : MergeSystem) (other : Replica)
  | flush

namespace Call

/-- The store after the call, whether it failed or not. -/
def step (aead : Aes256Gcm) (s : Store) : Call → Store
  | .put system collection key value => stateOf ((writeRaw system collection key value).run s)
  | .get collection key => stateOf ((getSealed aead collection key).run s)
  | .merge system other => stateOf ((mergeFrom system other).run s)
  | .flush =>
    match s.flush with
    | .ok (s, _) => s
    | .error _ => s

/-- The call writes or reads under the key. -/
def Touches (call : Call) (c : Collection) (k : String) : Prop :=
  match call with
  | .put _ collection key _ => c = collection ∧ k = key
  | .get collection key => c = collection ∧ k = key
  | .merge _ _ => False
  | .flush => False

/-- The call is a merge, and takes an entry in under the key. -/
def Brings (call : Call) (c : Collection) (k : String) : Prop :=
  match call with
  | .merge system other =>
    c ∈ taken system other collections ∧ other.store.db.registers c k ≠ none
  | _ => False

end Call

end RustyTime.Store
