import RustyTime.Core.ClientTable
import RustyTime.Infra.Chain
import RustyTime.Infra.Recency
import RustyTime.Properties.Index

/-!
# What a run of the client table is measured by

The observations of a run that its specifications speak about: which admissions passed the
global limiter and when, what they were answered, and which slots were handed to new clients.
`IsLru` is the purpose of the table: it is a bounded map in least-recently-used order.
-/

namespace RustyTime.ClientTable

open Infra.Chain Infra.Recency Index

set_option linter.unusedSectionVars false

variable {K R : Type}

/-- The recency links. A slot past the end has none. -/
def links (t : ClientTable K R) : Links ℕ where
  next i := (t.slots[i]?.map Slot.next).getD linkNil
  prev i := (t.slots[i]?.map Slot.prev).getD linkNil
  head := t.mru
  last := t.lru

/-- **The table is the map with the keys `ks`, the most recently used first.** -/
structure IsLru [DecidableEq K] [LE R] (t : ClientTable K R) (ks : List K) : Prop where
  nodup : ks.Nodup
  /-- `get` finds these keys and no others. -/
  found : ∀ key, (t.get key).isSome ↔ key ∈ ks
  len : t.len = ks.length
  bounded : t.len ≤ t.capacity
  /-- The links thread every slot once, and the slots hold the keys in this order. -/
  threaded : ∃ l, Threaded linkNil t.links l ∧ (∀ i, i ∈ l ↔ i < t.slots.size) ∧
    l.map (keyOf t.slots) = ks.map some
  inverse : ∀ i j, i < t.slots.size → j < t.slots.size →
    (t.links.next i = j ↔ t.links.prev j = i)
  /-- The index sends a key to the slot that holds it, and a dead key nowhere. -/
  indexed : ∀ key i, t.index.get key t.slots = some i ↔ keyOf t.slots i = some key
  recentKeys : ∀ limit, (t.mostRecent limit).map Prod.fst = ks.take limit
  recentRecords : ∀ limit, ∀ row ∈ t.mostRecent limit, t.get row.1 = some row.2
  recentTimes : ∀ limit,
    (t.mostRecent limit).Pairwise fun newer older => older.2.lastSeen ≤ newer.2.lastSeen

/-- The monotonic time an operation carries. -/
def Op.now? : Op K R → Option R
  | .admitHandle _ now => some now
  | _ => none

/-- Any operation but an admission. -/
def Op.Other (op : Op K R) : Prop := ∀ key now, op ≠ .admitHandle key now

theorem Op.admitHandle_or_other (op : Op K R) :
    (∃ key now, op = .admitHandle key now) ∨ op.Other := by
  cases op with
  | admitHandle key now => exact .inl ⟨key, now, rfl⟩
  | _ => exact .inr fun _ _ he => by cases he

theorem Op.Other.now? {op : Op K R} (h : op.Other) : op.now? = none := by
  cases op with
  | admitHandle key now => exact absurd rfl (h key now)
  | _ => rfl

/-- The times of a run's admissions, in order. -/
def times (ops : List (Op K R)) : List R := ops.filterMap Op.now?

variable [DecidableEq K] [Zero R] [One R] [Add R] [Sub R] [Mul R] [NatCast R] [Max R] [Min R]
  [LT R] [LE R] [DecidableLT R] [DecidableLE R]

/-- The key of an admission that the global limiter passes. -/
def passedKey (t : ClientTable K R) : Op K R → Option K
  | .admitHandle key now => if t.passesGlobal now then some key else none
  | _ => none

/-- The keys of the admissions that passed the global limiter, in order. -/
def passedKeys (t : ClientTable K R) : List (Op K R) → List K
  | [] => []
  | op :: ops => (passedKey t op).toList ++ passedKeys (t.step op) ops

/-- The slot an operation hands to a new client. -/
def allocated (t : ClientTable K R) : Op K R → Option ℕ
  | .admitHandle key now =>
    if t.passesGlobal now ∧ t.index.get key t.slots = none then
      some ((t.openRequest now).slotFor key now).2
    else none
  | _ => none

/-- The slot allocations of a run, in order. -/
def allocations (t : ClientTable K R) : List (Op K R) → List ℕ
  | [] => []
  | op :: ops => (allocated t op).toList ++ allocations (t.step op) ops

/-- One answered admission of a run. -/
structure Answer (K R : Type) where
  key : K
  now : R
  disposition : Disposition
  handle : ClientHandle

/-- What an admission answers. -/
def answer (t : ClientTable K R) : Op K R → Option (Answer K R)
  | .admitHandle key now =>
    let (_, disposition, handle) := t.admitHandle key now
    some ⟨key, now, disposition, handle⟩
  | _ => none

/-- The answers of a run, in order. -/
def answers (t : ClientTable K R) : List (Op K R) → List (Answer K R)
  | [] => []
  | op :: ops => (answer t op).toList ++ answers (t.step op) ops

theorem Op.Other.passedKey {op : Op K R} (h : op.Other) (t : ClientTable K R) :
    t.passedKey op = none := by
  cases op with
  | admitHandle key now => exact absurd rfl (h key now)
  | _ => rfl

theorem Op.Other.allocated {op : Op K R} (h : op.Other) (t : ClientTable K R) :
    t.allocated op = none := by
  cases op with
  | admitHandle key now => exact absurd rfl (h key now)
  | _ => rfl

theorem Op.Other.answer {op : Op K R} (h : op.Other) (t : ClientTable K R) :
    t.answer op = none := by
  cases op with
  | admitHandle key now => exact absurd rfl (h key now)
  | _ => rfl

theorem run_append (t : ClientTable K R) (ops ops' : List (Op K R)) :
    t.run (ops ++ ops') = (t.run ops).run ops' := by
  simp [run]

end RustyTime.ClientTable
