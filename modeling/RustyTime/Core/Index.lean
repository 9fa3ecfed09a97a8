import Mathlib.Algebra.Order.Field.Basic
import Mathlib.Data.Nat.Log

/-!
# The open-addressed index of the client table

`Index` of `rusty_time-core/src/server.rs`: linear probing over a power-of-two array of
buckets, with backward-shift deletion. A bucket keeps the low 32 bits of a key's hash and the
number of the slot that holds the key, so a lookup compares keys in the slots.

The loops of `probe`, `insert` and `remove` carry a bound on their steps, the number of
buckets: a walk that has seen every bucket would go round for ever.
-/

namespace RustyTime

/-- `u32::MAX`, the "none" of the recency links (`NIL`). -/
def linkNil : Nat := 4294967295

/-- One client's storage. `prev` points toward the most recently used end. -/
structure Slot (K ρ : Type) where
  key : K
  record : ρ
  prev : Nat
  next : Nat
  generation : Nat

structure Bucket where
  /-- Low 32 bits of the hash. -/
  hash : Nat
  handle : Nat
deriving DecidableEq, Repr

namespace Bucket

/-- `EMPTY`, the handle of a free bucket. -/
def empty : Nat := 4294967295

def isFree (b : Bucket) : Bool := b.handle == empty

end Bucket

structure Index (K : Type) where
  buckets : Array Bucket
  mask : Nat
  len : Nat
  /-- The seeded hasher's `hash_one`. -/
  hasher : K → UInt64

namespace Index

variable {K ρ : Type}

/-- `usize::next_power_of_two`, on a 64-bit target before overflow. -/
def nextPowerOfTwo (n : Nat) : Nat := 2 ^ Nat.clog 2 n

/--
`Index::with_capacity`. `none` is the failed assertion that the bucket count fits the 32-bit
hash word; a capacity that overflows `next_power_of_two` fails it as well.
-/
def withCapacity (capacity : Nat) (hasher : K → UInt64) : Option (Index K) :=
  let n := nextPowerOfTwo (min (max capacity 1 * 4) 18446744073709551615)
  if n - 1 ≤ 4294967295 then
    some
      { buckets := Array.replicate n { hash := 0, handle := Bucket.empty }
        mask := n - 1
        len := 0
        hasher := hasher }
  else none

/-- `hash_of`: the low word of the hash. -/
def hashOf (ix : Index K) (key : K) : Nat := (ix.hasher key).toNat % 4294967296

/-- `i.wrapping_sub(j) & mask` on `usize`. -/
def maskedSub (ix : Index K) (i j : Nat) : Nat :=
  (i + 18446744073709551616 - j) % 18446744073709551616 &&& ix.mask

section Probe

variable [DecidableEq K]

/-- Whether a bucket's slot holds `key`. -/
def holds (slots : Array (Slot K ρ)) (handle : Nat) (key : K) : Bool :=
  match slots[handle]? with
  | some sl => sl.key == key
  | none => false

/-- The loop of `probe`, from bucket `i`. -/
def probeFrom (ix : Index K) (hash : Nat) (key : K) (slots : Array (Slot K ρ)) :
    Nat → Nat → Option Nat
  | 0, _ => none
  | fuel + 1, i =>
    match ix.buckets[i]? with
    | none => none
    | some b =>
      if b.isFree then none
      else if b.hash = hash ∧ holds slots b.handle key then some i
      else probeFrom ix hash key slots fuel ((i + 1) &&& ix.mask)

/-- `Index::probe`: the bucket holding `key`. -/
def probe (ix : Index K) (hash : Nat) (key : K) (slots : Array (Slot K ρ)) : Option Nat :=
  probeFrom ix hash key slots ix.buckets.size (hash &&& ix.mask)

/-- `Index::get`. -/
def get (ix : Index K) (key : K) (slots : Array (Slot K ρ)) : Option Nat :=
  match probe ix (ix.hashOf key) key slots with
  | none => none
  | some i => ix.buckets[i]?.map Bucket.handle

/-- The walk of `insert` to the first free bucket. -/
def freeFrom (ix : Index K) : Nat → Nat → Nat
  | 0, i => i
  | fuel + 1, i =>
    match ix.buckets[i]? with
    | none => i
    | some b => if b.isFree then i else freeFrom ix fuel ((i + 1) &&& ix.mask)

/-- `Index::insert`. -/
def insert (ix : Index K) (key : K) (handle : Nat) (slots : Array (Slot K ρ)) : Index K :=
  let hash := ix.hashOf key
  match probe ix hash key slots with
  | some i => { ix with buckets := ix.buckets.modify i fun b => { b with handle := handle } }
  | none =>
    let i := freeFrom ix ix.buckets.size (hash &&& ix.mask)
    { ix with
      buckets := ix.buckets.setIfInBounds i { hash := hash, handle := handle }
      len := ix.len + 1 }

/-- Clear a bucket: only its handle is written. -/
def freeBucket (ix : Index K) (i : Nat) : Index K :=
  { ix with buckets := ix.buckets.modify i fun b => { b with handle := Bucket.empty } }

/-- The backward-shift walk of `remove`, with the hole and the cursor. -/
def shiftBack (ix : Index K) : Nat → Nat → Nat → Index K
  | 0, _, _ => ix
  | fuel + 1, hole, i =>
    match ix.buckets[i]? with
    | none => ix
    | some b =>
      if b.isFree then ix
      else
        let ideal := b.hash &&& ix.mask
        let toHole := ix.maskedSub hole ideal
        let toHere := ix.maskedSub i ideal
        if toHole < toHere then
          let moved := { ix with buckets := ix.buckets.setIfInBounds hole b }
          shiftBack (moved.freeBucket i) fuel i ((i + 1) &&& ix.mask)
        else shiftBack ix fuel hole ((i + 1) &&& ix.mask)

/-- `Index::remove`. -/
def remove (ix : Index K) (key : K) (slots : Array (Slot K ρ)) : Index K :=
  match probe ix (ix.hashOf key) key slots with
  | none => ix
  | some hole =>
    let cleared := ix.freeBucket hole
    shiftBack { cleared with len := ix.len - 1 } ix.buckets.size hole ((hole + 1) &&& ix.mask)

end Probe

end Index

end RustyTime
