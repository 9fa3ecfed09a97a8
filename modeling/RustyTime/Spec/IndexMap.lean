import RustyTime.Infra.Run
import RustyTime.Properties.Index

/-!
# The index beside its slots

The index is used by the owner of the slots it names: an owner inserts and removes keys, and
between two calls rewrites slots, as long as a slot keeps its key while the index holds it. What
the calls should build is a finite map from keys to handles.

`ProbeEnds`, `WalkEnds` and `ShiftEnds` are the three loops with no bound on their steps: a
derivation is a finished run of the loop, with no read outside the array.
-/

namespace RustyTime.Index

variable {K ρ : Type} [DecidableEq K]

/-! ## The loops, unbounded -/

section Loops

variable (ix : Index K) (hash : Nat) (key : K) (slots : Array (Slot K ρ))

/-- The loop of `probe`. -/
inductive ProbeEnds : Nat → Option Nat → Prop where
  | free {i : Nat} {b : Bucket} (hb : ix.buckets[i]? = some b) (hf : b.isFree = true) :
    ProbeEnds i none
  | found {i : Nat} {b : Bucket} (hb : ix.buckets[i]? = some b) (hf : b.isFree = false)
    (hm : b.hash = hash ∧ holds slots b.handle key = true) : ProbeEnds i (some i)
  | next {i : Nat} {b : Bucket} {r : Option Nat} (hb : ix.buckets[i]? = some b)
    (hf : b.isFree = false) (hm : ¬(b.hash = hash ∧ holds slots b.handle key = true))
    (h : ProbeEnds ((i + 1) &&& ix.mask) r) : ProbeEnds i r

/-- The walk of `insert`. -/
inductive WalkEnds : Nat → Nat → Prop where
  | free {i : Nat} {b : Bucket} (hb : ix.buckets[i]? = some b) (hf : b.isFree = true) :
    WalkEnds i i
  | next {i r : Nat} {b : Bucket} (hb : ix.buckets[i]? = some b) (hf : b.isFree = false)
    (h : WalkEnds ((i + 1) &&& ix.mask) r) : WalkEnds i r

end Loops

/-- The backward-shift loop of `remove`. -/
inductive ShiftEnds : Index K → Nat → Nat → Index K → Prop where
  | free {ix : Index K} {hole i : Nat} {b : Bucket} (hb : ix.buckets[i]? = some b)
    (hf : b.isFree = true) : ShiftEnds ix hole i ix
  | move {ix ix' : Index K} {hole i : Nat} {b : Bucket} (hb : ix.buckets[i]? = some b)
    (hf : b.isFree = false)
    (htest : ix.maskedSub hole (b.hash &&& ix.mask) < ix.maskedSub i (b.hash &&& ix.mask))
    (h : ShiftEnds (({ ix with buckets := ix.buckets.setIfInBounds hole b }).freeBucket i) i
      ((i + 1) &&& ix.mask) ix') : ShiftEnds ix hole i ix'
  | keep {ix ix' : Index K} {hole i : Nat} {b : Bucket} (hb : ix.buckets[i]? = some b)
    (hf : b.isFree = false)
    (htest : ¬ix.maskedSub hole (b.hash &&& ix.mask) < ix.maskedSub i (b.hash &&& ix.mask))
    (h : ShiftEnds ix hole ((i + 1) &&& ix.mask) ix') : ShiftEnds ix hole i ix'

/-! ## The calls and the map they build -/

inductive Call (K ρ : Type) where
  | insert (key : K) (handle : Nat)
  | remove (key : K)
  /-- The owner rewrites its slots. -/
  | rewrite (slots : Array (Slot K ρ))

/-- The index, its owner's slots, and the live keys with their handles. -/
structure Owned (K ρ : Type) where
  index : Index K
  slots : Array (Slot K ρ)
  live : List (K × Nat)

namespace Owned

def start (ix : Index K) : Owned K ρ := ⟨ix, #[], []⟩

/-- The map without a key. -/
def without (live : List (K × Nat)) (key : K) : List (K × Nat) :=
  live.filter fun entry => entry.1 ≠ key

def step (s : Owned K ρ) : Call K ρ → Owned K ρ
  | .insert key handle =>
    { s with
      index := s.index.insert key handle s.slots
      live := (key, handle) :: without s.live key }
  | .remove key =>
    { s with
      index := s.index.remove key s.slots
      live := without s.live key }
  | .rewrite slots => { s with slots := slots }

/-- What the owner promises of a call: a slot that is indexed holds its key, and no more than
`capacity` keys are live. `EMPTY` is no slot's number. -/
def Allowed (capacity : Nat) (s : Owned K ρ) : Call K ρ → Prop
  | .insert key handle =>
    keyOf s.slots handle = some key ∧ handle < Bucket.empty ∧
      (without s.live key).length + 1 ≤ capacity
  | .remove _ => True
  | .rewrite slots => ∀ entry ∈ s.live, keyOf slots entry.2 = some entry.1

instance (capacity : Nat) (s : Owned K ρ) (call : Call K ρ) :
    Decidable (s.Allowed capacity call) :=
  match call with
  | .insert _ _ => inferInstanceAs (Decidable (_ ∧ _))
  | .remove _ => isTrue trivial
  | .rewrite _ => inferInstanceAs (Decidable (∀ _ ∈ _, _))

def run (s : Owned K ρ) (calls : List (Call K ρ)) : Owned K ρ := calls.foldl step s

end Owned

/-! ## What it means to be the map -/

/-- Every entry is reached from its ideal bucket through buckets that are not free. -/
def Reachable (ix : Index K) : Prop :=
  ∀ p b, ix.buckets[p]? = some b → b.isFree = false →
    ∀ e, e < ix.maskedSub p (b.hash &&& ix.mask) →
      ∃ c, ix.buckets[((b.hash &&& ix.mask) + e) &&& ix.mask]? = some c ∧ c.isFree = false

/-- The index is the map: it answers with the live keys' handles, and its loops end. -/
structure Represents (ix : Index K) (slots : Array (Slot K ρ)) (live : List (K × Nat)) : Prop where
  keys : (live.map Prod.fst).Nodup
  probe : ∀ key handle, (∃ i, ix.probe (ix.hashOf key) key slots = some i ∧
    ix.buckets[i]?.map Bucket.handle = some handle) ↔ (key, handle) ∈ live
  get : ∀ key handle, ix.get key slots = some handle ↔ (key, handle) ∈ live
  len : ix.len = live.length
  reachable : ix.Reachable
  free : ∃ b ∈ ix.buckets, b.isFree = true
  probeEnds : ∀ key, ProbeEnds ix (ix.hashOf key) key slots (ix.hashOf key &&& ix.mask)
    (ix.probe (ix.hashOf key) key slots)
  /-- `insert` of a key that is not live ends at the bucket it fills. -/
  insertEnds : ∀ key handle, ix.probe (ix.hashOf key) key slots = none → ∃ i,
    WalkEnds ix (ix.hashOf key &&& ix.mask) i ∧
      ix.insert key handle slots =
        { ix with
          buckets := ix.buckets.setIfInBounds i ⟨ix.hashOf key, handle⟩
          len := ix.len + 1 }
  /-- `remove` of a live key ends, with what `Index.remove` returns. -/
  removeEnds : ∀ key hole, ix.probe (ix.hashOf key) key slots = some hole →
    ShiftEnds { ix.freeBucket hole with len := ix.len - 1 } hole ((hole + 1) &&& ix.mask)
      (ix.remove key slots)

end RustyTime.Index
