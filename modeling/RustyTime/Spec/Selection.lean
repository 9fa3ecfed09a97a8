import Mathlib.Tactic.Linarith
import Mathlib.Tactic.NormNum
import RustyTime.Core.Select
import RustyTime.Infra.Sweep

/-!
# What a selection is about

A source says that the true offset is in its interval, `[lower, upper]`. The sources that can all
be right share a point, so a selection is about how many intervals overlap where: `depth` counts
them. The endpoint scans of `select` count `Sweep.overlap` instead, which at a point where one
interval ends and another begins depends on the order of the list.

* `Truthful` — a source that is right, and how sure it is
* `Deepest` — the points of the deepest overlap the scans can count, if a majority makes it
* `Torn` — the deepest overlap lies on both sides of a gap between two sources
* `Decides` — a point where intervals only touch makes the selection depend on their order
-/

namespace RustyTime.Select

open Infra

variable {R : Type} [Field R] [LinearOrder R]

/-- The lower end of a source's interval. -/
def lower (s : SourceEstimate R) : R := s.offset - radius s

/-- The upper end of a source's interval. -/
def upper (s : SourceEstimate R) : R := s.offset + radius s

theorem radius_pos [IsStrictOrderedRing R] (s : SourceEstimate R) : 0 < radius s :=
  lt_of_lt_of_le (by norm_num) (le_max_right s.rootDistance 1e-9)

theorem lower_lt_upper [IsStrictOrderedRing R] (s : SourceEstimate R) : lower s < upper s := by
  have := radius_pos s
  unfold lower upper
  linarith

/-- The sources a selection keeps, best first. -/
def survivors (sources : List (SourceEstimate R)) : List (SourceEstimate R) :=
  match chosen (edges sources) sources.length with
  | none => []
  | some (lo, hi) => (sources.filter (survives lo hi)).insertionSort Before

/-- How many intervals contain `x`. -/
def depth (sources : List (SourceEstimate R)) (x : R) : Nat := Sweep.depth lower upper sources x

/-- How many intervals contain `x` and what is beside it. -/
def firm (sources : List (SourceEstimate R)) (x : R) : Nat := Sweep.firm lower upper sources x

/-- Where the overlap of the endpoints, read in the order of the list, is `need` or more. -/
def reached (sources : List (SourceEstimate R)) (need : Nat) : Set R :=
  {x | ∃ read rest, sources = read ++ rest ∧ need ≤ Sweep.overlap lower upper read rest x}

/-- A source has the offset `θ` strictly inside its interval, and is sure of it to within `ρ`. -/
def Truthful (θ ρ : R) (s : SourceEstimate R) : Prop :=
  lower s < θ ∧ θ < upper s ∧ radius s ≤ ρ

instance (θ ρ : R) (s : SourceEstimate R) : Decidable (Truthful θ ρ s) :=
  inferInstanceAs (Decidable (_ ∧ _ ∧ _))

/-- The deepest overlap is a majority's, and `x` is in it. -/
def Deepest (sources : List (SourceEstimate R)) (x : R) : Prop :=
  ∃ need, sources.length < 2 * need ∧ x ∈ reached sources need ∧ reached sources (need + 1) = ∅

/-- One source ends before another begins, between two points of the deepest overlap. -/
def Torn (sources : List (SourceEstimate R)) : Prop :=
  ∃ s ∈ sources, ∃ t ∈ sources, upper s < lower t ∧
    (∃ x, x ≤ upper s ∧ Deepest sources x) ∧ ∃ y, lower t ≤ y ∧ Deepest sources y

/-! ## Touching intervals -/

/-- The deepest firm overlap is a majority's, and `x` is in it. -/
def Firmest (sources : List (SourceEstimate R)) (x : R) : Prop :=
  sources.length < 2 * firm sources x ∧ ∀ y, firm sources y ≤ firm sources x

/-- A source reaches into the hull of the deepest firm overlap. -/
def MeetsFirmest (sources : List (SourceEstimate R)) (s : SourceEstimate R) : Prop :=
  (∃ x, x ≤ upper s ∧ Firmest sources x) ∧ ∃ y, lower s ≤ y ∧ Firmest sources y

/-- Counting all that touches at `x` leaves the selection as the firm overlap has it: `x` lies
within the deepest firm overlap, and if it is deeper still, so do the same sources. -/
def Settled (sources : List (SourceEstimate R)) (x : R) : Prop :=
  (∃ y, y ≤ x ∧ Firmest sources y) ∧ (∃ y, x ≤ y ∧ Firmest sources y) ∧
    ((∀ y, firm sources y < depth sources x) →
      ∀ s ∈ sources, MeetsFirmest sources s → lower s ≤ x ∧ x ≤ upper s)

/-- One source ends at `x` where another begins, a majority contains `x`, no point is in more
intervals firmly, and it is not settled without them. -/
def Decides (sources : List (SourceEstimate R)) (x : R) : Prop :=
  (∃ s ∈ sources, upper s = x) ∧ (∃ t ∈ sources, lower t = x) ∧
    sources.length < 2 * depth sources x ∧ (∀ y, firm sources y ≤ depth sources x) ∧
    ¬Settled sources x

end RustyTime.Select
