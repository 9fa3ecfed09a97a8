import RustyTime.Daemon.Store

/-!
# A store over its restarts

A run of the store writes, reads, retires entries and goes through the disk. What it should hold
is a map, and of the map only the writes matter.
-/

namespace RustyTime.Store

inductive Op where
  | put (collection : Collection) (key value : String)
  | get (collection : Collection) (key : String)
  /-- An entry overwritten with the empty tombstone. -/
  | retire (collection : Collection) (key : String)
  /-- Flushed, closed and opened again. -/
  | reopen

/-- The strings fit their length prefix. -/
def Op.Fits : Op → Prop
  | .put _ key value => (asBytes key).length < 2 ^ 32 ∧ (asBytes value).length < 2 ^ 32
  | .get _ _ => True
  | .retire _ key => (asBytes key).length < 2 ^ 32
  | .reopen => True

instance : (op : Op) → Decidable op.Fits
  | .put _ _ _ => inferInstanceAs (Decidable (_ ∧ _))
  | .get _ _ => isTrue trivial
  | .retire _ key => inferInstanceAs (Decidable ((asBytes key).length < 2 ^ 32))
  | .reopen => isTrue trivial

/-- One operation. -/
def step (s : Store) : Op → Except StoreError Store
  | .put collection key value => s.putRaw collection key value
  | .get collection key => do
    let (s, _) ← s.getRaw collection key
    return s
  | .retire collection key => s.putRaw collection key ""
  | .reopen => do
    let (_, blob) ← s.flush
    openFile (some blob)

def run (s : Store) : List Op → Except StoreError Store
  | [] => .ok s
  | op :: ops => do
    let s ← s.step op
    s.run ops

/-- What a reader of the store sees under a key. -/
def value (s : Store) (collection : Collection) (key : String) :
    Except StoreError (Option String) :=
  do
    let (_, value) ← s.getRaw collection key
    return value

/-! ## The map it stands for -/

abbrev Contents := Collection → String → Option String

/-- What an operation should do to the map. -/
def Contents.step (m : Contents) : Op → Contents
  | .put collection key value =>
    Function.update m collection (Function.update (m collection) key (some value))
  | .get _ _ => m
  | .retire collection key =>
    Function.update m collection (Function.update (m collection) key (some ""))
  | .reopen => m

def Contents.run (m : Contents) (ops : List Op) : Contents := ops.foldl Contents.step m

def Contents.empty : Contents := fun _ _ => none

end RustyTime.Store
