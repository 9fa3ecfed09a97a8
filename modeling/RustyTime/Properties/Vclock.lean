import Mathlib.Algebra.Order.Ring.Rat
import Mathlib.Algebra.Order.Field.Basic
import Mathlib.Tactic.Linarith
import Mathlib.Tactic.Ring
import RustyTime.Core.Vclock
import RustyTime.Infra.Run

/-!
# The virtual clock against the true time

A history is updates and readings. The raw clock and the true time are any functions of the
monotonic clock; what is assumed of them is that each update measured the offset within its
bound, and that between updates the raw clock strays from its modelled skew by no more than the
growth the clock allows for.

* `readings_sorted` — the output never goes back
* `corrected_within` — before the guard, it is within the bound
* `honest_iff` — after the guard it is, exactly when no earlier reading was ahead of the truth by
  more than the bound of the present one
-/

namespace RustyTime.VirtualClock

open Infra.Run (Along along_iff)

set_option linter.unusedSectionVars false

variable {R : Type} [Field R] [LinearOrder R]

/-! ## Histories -/

inductive Event (R : Type) where
  | update (mono offset : R) (skewPpm : Option R) (errorBound : R)
  | now (mono rawWall : R)

def step (c : VirtualClock R) : Event R → VirtualClock R
  | .update mono offset skewPpm errorBound => c.update mono offset skewPpm errorBound
  | .now mono rawWall => (c.now mono rawWall).1

/-- The times handed out. -/
def readings : VirtualClock R → List (Event R) → List R
  | _, [] => []
  | c, .update mono offset skewPpm errorBound :: evs =>
    readings (c.update mono offset skewPpm errorBound) evs
  | c, .now mono rawWall :: evs =>
    (c.now mono rawWall).2 :: readings (c.now mono rawWall).1 evs

/-- What is promised of an event, of a raw clock and the true time. -/
def Promised (raw tru : R → R) (c : VirtualClock R) : Event R → Prop
  | .update mono offset _ errorBound => |tru mono - raw mono - offset| ≤ errorBound
  | .now mono rawWall => rawWall = raw mono ∧ ∀ t0, c.lastUpdateMono = some t0 → t0 ≤ mono ∧
      |(raw mono - raw t0) - (tru mono - tru t0) - c.skewPpm * 1e-6 * (mono - t0)| ≤
        c.errGrowthPpm * 1e-6 * (mono - t0)

/-- A reading is within its bound of the true time. -/
def Honest (tru : R → R) (c : VirtualClock R) : Event R → Prop
  | .update _ _ _ _ => True
  | .now mono rawWall =>
    ((|(c.now mono rawWall).2 - tru mono| : R) : WithTop R) ≤ (c.now mono rawWall).1.confidence mono

/-- No time handed out before a reading is later than the true time by more than the bound. -/
def CaughtUp (tru : R → R) (c : VirtualClock R) : Event R → Prop
  | .update _ _ _ _ => True
  | .now mono _ => ∀ highWater, c.highWater = some highWater →
    ((highWater - tru mono : R) : WithTop R) ≤ c.confidence mono

/-! ## Monotone -/

/-- A reading is the new high water mark. -/
theorem now_highWater (c : VirtualClock R) (mono rawWall : R) :
    (c.now mono rawWall).1.highWater = some (c.now mono rawWall).2 ∧
      (∀ highWater, c.highWater = some highWater → highWater ≤ (c.now mono rawWall).2) := by
  unfold now
  dsimp only
  cases hw : c.highWater with
  | none => exact ⟨rfl, fun _ h => (nomatch h)⟩
  | some highWater =>
    dsimp only
    split
    · refine ⟨hw, fun h he => ?_⟩
      exact le_of_eq (Option.some.inj he).symm
    · next hle =>
      refine ⟨rfl, fun h he => ?_⟩
      exact (Option.some.inj he) ▸ not_lt.mp hle

/-- The reading is the corrected time, or the guard's. -/
theorem now_cases (c : VirtualClock R) (mono rawWall : R) :
    (c.now mono rawWall).2 = c.corrected mono rawWall ∨
      ∃ highWater, c.highWater = some highWater ∧ c.corrected mono rawWall < highWater ∧
        (c.now mono rawWall).2 = highWater := by
  unfold now
  dsimp only
  cases hw : c.highWater with
  | none => exact .inl rfl
  | some highWater =>
    dsimp only
    split
    · next hlt => exact .inr ⟨highWater, rfl, hlt, rfl⟩
    · exact .inl rfl

theorem readings_ge {c : VirtualClock R} {highWater : R} (h : c.highWater = some highWater)
    (evs : List (Event R)) : ∀ v ∈ readings c evs, highWater ≤ v := by
  induction evs generalizing c highWater with
  | nil => exact fun v hv => (nomatch hv)
  | cons ev evs ih =>
    cases ev with
    | update mono offset skewPpm errorBound => exact ih h
    | now mono rawWall =>
      obtain ⟨hmark, hge⟩ := now_highWater c mono rawWall
      intro v hv
      rcases List.mem_cons.mp hv with rfl | hv
      · exact hge highWater h
      · exact (hge highWater h).trans (ih hmark v hv)

/-- **The output never goes back.** -/
theorem readings_sorted (c : VirtualClock R) (evs : List (Event R)) :
    (readings c evs).Pairwise (· ≤ ·) := by
  induction evs generalizing c with
  | nil => exact List.Pairwise.nil
  | cons ev evs ih =>
    cases ev with
    | update mono offset skewPpm errorBound => exact ih _
    | now mono rawWall =>
      exact List.Pairwise.cons (readings_ge (now_highWater c mono rawWall).1 evs) (ih _)

/-! ## The bound -/

/-- The offset was measured within the bound kept of it. -/
def Measured (raw tru : R → R) (c : VirtualClock R) : Prop :=
  ∀ t0, c.lastUpdateMono = some t0 → ∃ err : R, c.errAtUpdate = err ∧
    |tru t0 - raw t0 - c.offset| ≤ err

theorem new_measured (raw tru : R → R) : Measured raw tru new := fun _ h => (nomatch h)

theorem now_lastUpdateMono (c : VirtualClock R) (mono rawWall : R) :
    (c.now mono rawWall).1.lastUpdateMono = c.lastUpdateMono ∧
      (c.now mono rawWall).1.errAtUpdate = c.errAtUpdate ∧
      (c.now mono rawWall).1.errGrowthPpm = c.errGrowthPpm ∧
      (c.now mono rawWall).1.offset = c.offset := by
  unfold now
  dsimp only
  split
  · split <;> exact ⟨rfl, rfl, rfl, rfl⟩
  · exact ⟨rfl, rfl, rfl, rfl⟩

/-- A reading leaves the bound as it was. -/
theorem now_confidence (c : VirtualClock R) (mono rawWall t : R) :
    (c.now mono rawWall).1.confidence t = c.confidence t := by
  obtain ⟨hlast, herr, hgrowth, -⟩ := now_lastUpdateMono c mono rawWall
  unfold confidence
  rw [hlast, herr, hgrowth]

theorem step_measured {raw tru : R → R} {c : VirtualClock R} {ev : Event R}
    (h : Measured raw tru c) (hev : Promised raw tru c ev) : Measured raw tru (c.step ev) := by
  cases ev with
  | update mono offset skewPpm errorBound =>
    intro t0 ht0
    cases ht0
    exact ⟨max errorBound 0, rfl, le_max_of_le_left hev⟩
  | now mono rawWall =>
    obtain ⟨hlast, herr, -, hoffset⟩ := now_lastUpdateMono c mono rawWall
    intro t0 ht0
    show ∃ err : R, (c.now mono rawWall).1.errAtUpdate = err ∧
      |tru t0 - raw t0 - (c.now mono rawWall).1.offset| ≤ err
    rw [herr, hoffset]
    exact h t0 (hlast ▸ ht0)

variable [IsStrictOrderedRing R]

/-- **Before the guard the reading is within the bound.** -/
theorem corrected_within {raw tru : R → R} {c : VirtualClock R} {mono rawWall : R}
    (h : Measured raw tru c) (hev : Promised raw tru c (.now mono rawWall)) :
    ((|c.corrected mono rawWall - tru mono| : R) : WithTop R) ≤ c.confidence mono := by
  obtain ⟨rfl, hdrift⟩ := hev
  unfold corrected confidence
  cases ht0 : c.lastUpdateMono with
  | none => exact le_top
  | some t0 =>
    dsimp only
    obtain ⟨err, herr, hoffset⟩ := h t0 ht0
    obtain ⟨hle, hdrift⟩ := hdrift t0 ht0
    rw [herr, ← WithTop.coe_add, WithTop.coe_le_coe, max_eq_left (sub_nonneg.mpr hle)]
    rw [abs_le] at hoffset hdrift ⊢
    constructor <;> linarith [hoffset.1, hoffset.2, hdrift.1, hdrift.2]

/-- One reading. -/
theorem now_honest_iff {raw tru : R → R} {c : VirtualClock R} {ev : Event R}
    (h : Measured raw tru c) (hev : Promised raw tru c ev) :
    Honest tru c ev ↔ CaughtUp tru c ev := by
  cases ev with
  | update mono offset skewPpm errorBound => exact Iff.rfl
  | now mono rawWall =>
    have hwithin := corrected_within h hev
    unfold Honest CaughtUp
    dsimp only
    rw [now_confidence]
    constructor
    · intro hhonest highWater hmark
      have hge := (now_highWater c mono rawWall).2 highWater hmark
      refine le_trans (WithTop.coe_le_coe.mpr ?_) hhonest
      exact le_trans (sub_le_sub_right hge _) (le_abs_self _)
    · intro hcaught
      rcases now_cases c mono rawWall with hvalue | ⟨highWater, hmark, hlt, hvalue⟩
      · rw [hvalue]
        exact hwithin
      · -- the guard froze the output above the correction
        rw [hvalue]
        rcases abs_choice (highWater - tru mono) with habs | habs
        · rw [habs]
          exact hcaught highWater hmark
        · rw [habs]
          refine le_trans (WithTop.coe_le_coe.mpr ?_) hwithin
          have hback := neg_abs_le (c.corrected mono rawWall - tru mono)
          linarith

/--
**The bound is honest exactly when the guard holds nothing back that the bound does not cover.**
Whatever the raw clock and the true time, in every history that keeps its promises the readings
never go back. They are all within the bound of the true time if and only if, at each of them, the
highest time handed out before is later than the true time by no more than the bound.
-/
theorem honest_iff (raw tru : R → R) (evs : List (Event R))
    (hpromised : Along step (Promised raw tru) new evs) :
    (readings new evs).Pairwise (· ≤ ·) ∧ Along step (Honest tru) new evs ↔
      Along step (CaughtUp tru) new evs := by
  rw [← along_iff (Measured raw tru) (fun _ _ h hev => step_measured h hev)
    (fun _ _ h hev => now_honest_iff h hev) (new_measured raw tru) hpromised]
  exact and_iff_right (readings_sorted new evs)

/-- A raw clock an hour fast, measured before it is read. -/
def measuredFirst : List (Event ℚ) :=
  [.update 1 (-3600) none (1 / 1000), .now 1 3601, .now 2 3602]

theorem honest_measuredFirst :
    (readings new measuredFirst).Pairwise (· ≤ ·) ∧
      Along step (Honest fun t => t) new measuredFirst := by
  refine (honest_iff (fun t => t + 3600) (fun t => t) measuredFirst ?_).mpr ?_
  · refine ⟨?_, ⟨?_, ?_⟩, ⟨?_, ?_⟩, trivial⟩
    · show |_| ≤ _
      decide +kernel
    · norm_num
    · intro t0 ht0
      cases ht0
      decide +kernel
    · norm_num
    · intro t0 ht0
      cases ht0
      decide +kernel
  · refine ⟨trivial, ?_, ?_, trivial⟩
    · intro highWater hmark
      cases hmark
    · intro highWater hmark
      cases hmark
      decide +kernel

/-- The same clock, read once before it is measured. -/
def readFirst : List (Event ℚ) := [.now 0 3600, .update 1 (-3600) none (1 / 1000), .now 1 3601]

/-- Its next reading is an hour from the truth, with a bound of a millisecond. -/
theorem not_honest :
    readings new readFirst = [3600, 3600] ∧
      ((new.step (.now 0 3600)).step (.update 1 (-3600) none (1 / 1000))).confidence (1 : ℚ) =
        (1 / 1000 : ℚ) ∧
      Along step (Promised (fun t => t + 3600) fun t => t) new readFirst ∧
      ¬((readings new readFirst).Pairwise (· ≤ ·) ∧
        Along step (Honest fun t => t) new readFirst) := by
  refine ⟨by decide +kernel, by decide +kernel, ?_, ?_⟩
  · refine ⟨⟨?_, ?_⟩, ?_, ⟨?_, ?_⟩, trivial⟩
    · norm_num
    · intro t0 ht0
      cases ht0
    · show |_| ≤ _
      decide +kernel
    · norm_num
    · intro t0 ht0
      cases ht0
      decide +kernel
  · rintro ⟨-, -, -, hlast, -⟩
    unfold Honest at hlast
    exact absurd hlast (by decide +kernel)

end RustyTime.VirtualClock
