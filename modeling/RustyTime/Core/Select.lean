import Mathlib.Algebra.Order.Field.Basic
import Mathlib.Algebra.Order.Ring.Unbundled.Rat
import Mathlib.Data.List.Sort

/-!
# Source selection

`rusty_time-core/src/select.rs`: falseticker rejection by interval intersection. The two sorts
of the source are stable, and so is `insertionSort`; `total_cmp` is the order of `R`.
-/

namespace RustyTime

structure SourceEstimate (R : Type) where
  /-- The caller's identifier. -/
  id : Nat
  /-- Seconds to add to the local clock. -/
  offset : R
  rootDistance : R
  stratum : Nat

structure Selection (R : Type) where
  /-- Best first. -/
  truechimers : List Nat
  /-- Combined offset, if any source survived. -/
  offset : Option R

/-- `Selection::default`. -/
def Selection.default {R : Type} : Selection R := ⟨[], none⟩

/-- An endpoint of an interval: `kind` is 1 for a lower one, -1 for an upper one. -/
structure Edge (R : Type) where
  value : R
  kind : Int

namespace Select

variable {R : Type} [Field R] [LinearOrder R]

/-- Half the width of a source's interval. -/
def radius (s : SourceEstimate R) : R := max s.rootDistance 1e-9

/-- The endpoints in ascending order. -/
def edges (sources : List (SourceEstimate R)) : List (Edge R) :=
  (sources.flatMap fun s =>
    [⟨s.offset - radius s, 1⟩, ⟨s.offset + radius s, -1⟩]).insertionSort
      fun a b => a.value ≤ b.value

/-- A scan for the edge at which the running count, `sign` times the kinds, reaches `need`. -/
def scan (sign need : Int) : Int → List (Edge R) → Option R
  | _, [] => none
  | count, e :: edges =>
    if need ≤ count + sign * e.kind then some e.value
    else scan sign need (count + sign * e.kind) edges

/-- The endpoints found when `f` of `n` sources are taken for falsetickers. -/
def intersection (edges : List (Edge R)) (n f : Nat) : Option (R × R) :=
  let need : Int := (n - f : Nat)
  match scan 1 need 0 edges, scan (-1) need 0 edges.reverse with
  | some lo, some hi => if lo ≤ hi then some (lo, hi) else none
  | _, _ => none

/-- The intersection for the fewest falsetickers, fewer than half. -/
def chosen (edges : List (Edge R)) (n : Nat) : Option (R × R) :=
  (List.range ((n - 1) / 2 + 1)).findSome? (intersection edges n)

/-- Whether a source's interval meets the intersection. -/
def survives (lo hi : R) (s : SourceEstimate R) : Bool :=
  decide (lo ≤ s.offset + radius s) && decide (s.offset - radius s ≤ hi)

/-- Lowest stratum first, then tightest interval. -/
def Before (a b : SourceEstimate R) : Prop :=
  a.stratum < b.stratum ∨ a.stratum = b.stratum ∧ a.rootDistance ≤ b.rootDistance

instance : DecidableRel (Before (R := R)) := fun a b =>
  inferInstanceAs (Decidable (a.stratum < b.stratum ∨
    a.stratum = b.stratum ∧ a.rootDistance ≤ b.rootDistance))

/-- The offsets combined by weight. -/
def combined (survivors : List (SourceEstimate R)) : Option R :=
  let wsum := (survivors.map fun s => 1 / radius s).sum
  let osum := (survivors.map fun s => 1 / radius s * s.offset).sum
  if 0 < wsum then some (osum / wsum) else none

end Select

open Select in
/-- `select`. -/
def select {R : Type} [Field R] [LinearOrder R] (sources : List (SourceEstimate R)) :
    Selection R :=
  if sources.length = 0 then .default
  else
    match chosen (edges sources) sources.length with
    | none => .default
    | some (lo, hi) =>
      let survivors := (sources.filter (survives lo hi)).insertionSort Before
      if survivors.isEmpty then .default
      else
        { truechimers := survivors.map fun s => s.id
          offset := combined survivors }

end RustyTime
