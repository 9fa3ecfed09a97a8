import RustyTime.Daemon.SealedStore

/-!
# Merging a replica

`rusty_time-daemon/src/store.rs`: `merge_from`, a collection at a time. The database is a map here
as in `Daemon/Store.lean`, so an import makes the entries of an update present and leaves the
schema alone; one that fails brings nothing. Which of two values under one key stays is for the
database to say.
-/

namespace RustyTime

/-- What `export` gives of a collection. No bytes are no entries. -/
structure Update where
  entries : String → Option String
  isEmpty : Bool
  none_of_isEmpty : isEmpty = true → ∀ key, entries key = none

/-- A store, and its updates. -/
structure Replica where
  store : Store
  exported : Collection → Update
  entries : ∀ collection, (exported collection).entries = store.db.registers collection

/-- `import`. -/
def Database.importUpdate (db : Database) (collection : Collection) (update : Update)
    (theirs : String → Bool) : Database :=
  let register key :=
    match db.registers collection key, update.entries key with
    | some mine, some value => some (if theirs key then value else mine)
    | some mine, none => some mine
    | none, value => value
  { db with registers := Function.update db.registers collection register }

/-- How an import ends: `Ok`, `Err`, or a panic. -/
inductive ImportEnd where
  | done
  | refused
  | panicked
deriving DecidableEq

/-- What the database gives a merge. -/
structure MergeSystem where
  ends : Collection → ImportEnd
  /-- Whether the value of the peer stays, where both have one. -/
  theirs : Collection → String → Bool

namespace Store

/-- `import_guarded`. A panic is no error. -/
def importGuarded (system : MergeSystem) (collection : Collection) (update : Update) :
    StoreM Unit :=
  match system.ends collection with
  | .done =>
    modify fun s =>
      { s with db := s.db.importUpdate collection update (system.theirs collection) }
  | .refused => throw .sdk
  | .panicked => return

/-- The loop of `merge_from`. -/
def mergeEach (system : MergeSystem) (other : Replica) : List Collection → StoreM Unit
  | [] => return
  | collection :: rest => do
    let update := other.exported collection
    if update.isEmpty = false then importGuarded system collection update
    mergeEach system other rest

/-- `merge_from`. -/
def mergeFrom (system : MergeSystem) (other : Replica) : StoreM Unit :=
  mergeEach system other collections

end Store

end RustyTime
