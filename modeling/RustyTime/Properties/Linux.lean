import Mathlib.Algebra.Order.Field.Basic
import Mathlib.Algebra.Order.Floor.Ring
import Mathlib.Data.Rat.Floor
import Mathlib.Tactic.FieldSimp
import Mathlib.Tactic.Linarith
import Mathlib.Tactic.NormNum
import Mathlib.Tactic.Ring
import RustyTime.Clock.Linux
import RustyTime.Properties.Discipline

/-!
# What the Linux driver installs

* `apply_slew_installed` — a slew nothing clamps is installed up to the 2^-16 ppm of the field
* `apply_step_installed` — a step leaves the frequency alone
* `linuxTickAndFreq_delivers` — from a nominal tick of 1 ms on, the tick and the residual make
  up what was asked, within the advertised range
-/

namespace RustyTime

set_option linter.unusedSectionVars false

variable {R : Type} [Field R] [LinearOrder R] [FloorRing R]

/-- Nothing clamps the command: the total is one the platform reaches, and what the tick leaves
of it fits `ADJ_FREQUENCY`. -/
def ClockCommand.InRange (nominalTickUs : Int) : ClockCommand R → Prop
  | .step _ => True
  | .slew freqPpm drainOffset drainRatePpm =>
    let total := freqPpm + copysign drainRatePpm drainOffset
    |total| ≤ linuxMaxSlewPpm nominalTickUs ∧
      |total - (tickOffsetUs total nominalTickUs : R) * ppmPerUs nominalTickUs| ≤
        linuxMaxAdjFreqPpm

instance (nominalTickUs : Int) (command : ClockCommand R) :
    Decidable (command.InRange nominalTickUs) :=
  match command with
  | .step _ => isTrue trivial
  | .slew _ _ _ => inferInstanceAs (Decidable (_ ∧ _))

theorem apply_step_installed {nominalTickUs : Int} (clock : SystemClock) (addSeconds : R) :
    (clock.apply nominalTickUs (.step addSeconds)).installedPpm (R := R) nominalTickUs =
      clock.installedPpm nominalTickUs := rfl

variable [IsStrictOrderedRing R]

theorem abs_truncate_sub_lt (x : R) : |(truncate x : R) - x| < 1 := by
  unfold truncate
  split
  · have hle := Int.floor_le x
    have hlt := Int.lt_floor_add_one x
    rw [abs_sub_comm, abs_lt]
    constructor <;> linarith
  · have hle := Int.le_ceil x
    have hlt := Int.ceil_lt_add_one x
    rw [abs_lt]
    constructor <;> linarith

/-- The frequency field holds a residual up to one unit. -/
theorem abs_freq_sub_lt (x : R) :
    |(truncate (x * SystemClock.freqScale) : R) / SystemClock.freqScale - x| < 1 / 65536 := by
  have hscale : (SystemClock.freqScale : R) = 65536 := by
    unfold SystemClock.freqScale
    norm_num
  rw [hscale]
  have hpos : (0 : R) < 65536 := by norm_num
  have hx : (truncate (x * 65536) : R) / 65536 - x =
      ((truncate (x * 65536) : R) - x * 65536) / 65536 := by
    field_simp
  rw [hx, abs_div, abs_of_pos hpos]
  exact (div_lt_div_iff_of_pos_right hpos).mpr (abs_truncate_sub_lt _)

/-- The tick and the residual of a total in range make up the total. -/
theorem linuxTickAndFreq_of_inRange {nominalTickUs : Int} {total : R}
    (hreach : |total| ≤ linuxMaxSlewPpm nominalTickUs)
    (hresidual : |total - (tickOffsetUs total nominalTickUs : R) * ppmPerUs nominalTickUs| ≤
      linuxMaxAdjFreqPpm) :
    ∃ offsetUs : Int, linuxTickAndFreq total nominalTickUs =
      (nominalTickUs + offsetUs, total - (offsetUs : R) * ppmPerUs nominalTickUs) := by
  unfold linuxTickAndFreq
  unfold linuxMaxSlewPpm at hreach
  split
  · next h =>
    rw [if_pos h] at hreach
    refine ⟨0, ?_⟩
    rw [clamp_of_abs_le hreach, Int.add_zero, Int.cast_zero, zero_mul, sub_zero]
  · next h =>
    rw [if_neg h] at hreach
    refine ⟨tickOffsetUs total nominalTickUs, ?_⟩
    dsimp only
    rw [clamp_of_abs_le hreach, clamp_of_abs_le hresidual]

/-- **A slew nothing clamps is installed, up to the field's quantum.** -/
theorem apply_slew_installed {nominalTickUs : Int} (clock : SystemClock)
    {freqPpm drainOffset drainRatePpm : R}
    (h : ClockCommand.InRange nominalTickUs (.slew freqPpm drainOffset drainRatePpm)) :
    |(clock.apply nominalTickUs (.slew freqPpm drainOffset drainRatePpm)).installedPpm
        nominalTickUs - (freqPpm + copysign drainRatePpm drainOffset)| < 1 / 65536 := by
  obtain ⟨hreach, hresidual⟩ := h
  obtain ⟨offsetUs, heq⟩ := linuxTickAndFreq_of_inRange hreach hresidual
  unfold SystemClock.apply SystemClock.installedPpm totalPpm
  dsimp only
  rw [clamp_of_abs_le hreach, heq]
  dsimp only
  rw [add_sub_cancel_left]
  have hfield := abs_freq_sub_lt (R := R)
    (freqPpm + copysign drainRatePpm drainOffset - (offsetUs : R) * ppmPerUs nominalTickUs)
  rw [abs_lt] at hfield ⊢
  constructor <;> linarith [hfield.1, hfield.2]

/-! ## The whole range -/

theorem abs_roundHalfAway_sub_le (x : R) : |(roundHalfAway x : R) - x| ≤ 1 / 2 := by
  unfold roundHalfAway
  norm_num only
  split
  · have hle := Int.floor_le (x + 1 / 2)
    have hlt := Int.lt_floor_add_one (x + 1 / 2)
    rw [abs_le]
    constructor <;> linarith
  · have hle := Int.le_ceil (x - 1 / 2)
    have hlt := Int.ceil_lt_add_one (x - 1 / 2)
    rw [abs_le]
    constructor <;> linarith

theorem linuxMaxAdjFreqPpm_eq : (linuxMaxAdjFreqPpm : R) = 500 := by
  unfold linuxMaxAdjFreqPpm
  norm_num

theorem ppmPerUs_pos {nominalTickUs : Int} (hnominal : 0 < nominalTickUs) :
    0 < (ppmPerUs nominalTickUs : R) := by
  have hcast : (0 : R) < nominalTickUs := Int.cast_pos.mpr hnominal
  unfold ppmPerUs
  norm_num only
  exact div_pos (by norm_num) hcast

/-- One tick step is at most twice the frequency knob's range. -/
theorem ppmPerUs_le {nominalTickUs : Int} (hnominal : 1000 ≤ nominalTickUs) :
    (ppmPerUs nominalTickUs : R) ≤ 1000 := by
  have hcast : (1000 : R) ≤ nominalTickUs := by exact_mod_cast hnominal
  unfold ppmPerUs
  norm_num only
  rw [div_le_iff₀ (by linarith)]
  linarith

theorem maxTickOffsetUs_nonneg {nominalTickUs : Int} (hnominal : 0 < nominalTickUs) :
    0 ≤ maxTickOffsetUs R nominalTickUs := by
  have hcast : (0 : R) < nominalTickUs := Int.cast_pos.mpr hnominal
  unfold maxTickOffsetUs linuxTickRangeFraction
  refine Int.floor_nonneg.mpr ?_
  norm_num only
  exact mul_nonneg hcast.le (by norm_num)

theorem maxTickOffsetUs_le (nominalTickUs : Int) :
    (maxTickOffsetUs R nominalTickUs : R) ≤ nominalTickUs / 10 := by
  unfold maxTickOffsetUs linuxTickRangeFraction
  refine (Int.floor_le _).trans (le_of_eq ?_)
  norm_num only
  ring

theorem linuxMaxSlewPpm_of_pos {nominalTickUs : Int} (hnominal : 0 < nominalTickUs) :
    (linuxMaxSlewPpm nominalTickUs : R) =
      (maxTickOffsetUs R nominalTickUs : R) * ppmPerUs nominalTickUs + 500 := by
  unfold linuxMaxSlewPpm
  rw [if_neg (not_le.mpr hnominal), linuxMaxAdjFreqPpm_eq]

theorem le_linuxMaxSlewPpm {nominalTickUs : Int} (hnominal : 0 < nominalTickUs) :
    (500 : R) ≤ linuxMaxSlewPpm nominalTickUs := by
  have hoffset : (0 : R) ≤ maxTickOffsetUs R nominalTickUs :=
    Int.cast_nonneg (maxTickOffsetUs_nonneg hnominal)
  have hprod := mul_nonneg hoffset (ppmPerUs_pos (R := R) hnominal).le
  rw [linuxMaxSlewPpm_of_pos hnominal]
  linarith

theorem linuxMaxSlewPpm_nonneg {nominalTickUs : Int} (hnominal : 0 < nominalTickUs) :
    (0 : R) ≤ linuxMaxSlewPpm nominalTickUs :=
  le_trans (by norm_num) (le_linuxMaxSlewPpm hnominal)

theorem tickOffsetUs_of_abs_le {nominalTickUs : Int} {wanted : R} (h : |wanted| ≤ 500) :
    tickOffsetUs wanted nominalTickUs = 0 := by
  unfold tickOffsetUs
  dsimp only
  rw [linuxMaxAdjFreqPpm_eq, if_neg (not_lt.mpr h)]

theorem abs_tickOffsetUs_le {nominalTickUs : Int} (hnominal : 0 < nominalTickUs) (wanted : R) :
    |tickOffsetUs wanted nominalTickUs| ≤ maxTickOffsetUs R nominalTickUs := by
  have hoffset := maxTickOffsetUs_nonneg (R := R) hnominal
  unfold tickOffsetUs
  dsimp only
  split
  · rw [abs_le]
    omega
  · rwa [abs_zero]

/-- What whole steps leave of a reachable frequency: rounding leaves half a step, and a step
count at the edge of its range leaves what is beyond the edge. -/
theorem abs_sub_steps_le {perStep wanted : R} {maxSteps : Int} (hpos : 0 < perStep)
    (hle : perStep ≤ 1000) (hmax : 0 ≤ maxSteps) (hreach : |wanted| ≤ maxSteps * perStep + 500) :
    |wanted - (max (-maxSteps) (min maxSteps (roundHalfAway (wanted / perStep))) : Int) *
      perStep| ≤ 500 := by
  have hround := abs_roundHalfAway_sub_le (wanted / perStep)
  have hwanted : wanted = wanted / perStep * perStep := (div_mul_cancel₀ wanted hpos.ne').symm
  generalize wanted / perStep = steps at hround hwanted ⊢
  rw [abs_le] at hround hreach ⊢
  rcases lt_or_ge maxSteps (roundHalfAway steps) with hhigh | hhigh
  · have hcast : (maxSteps : R) + 1 ≤ roundHalfAway steps := by exact_mod_cast hhigh
    have hedge : (maxSteps : R) * perStep ≤ steps * perStep :=
      mul_le_mul_of_nonneg_right (by linarith [hround.2]) hpos.le
    rw [min_eq_left hhigh.le, max_eq_right (by omega)]
    constructor <;> linarith [hreach.2]
  · rcases lt_or_ge (roundHalfAway steps) (-maxSteps) with hlow | hlow
    · have hcast : (roundHalfAway steps : R) + 1 ≤ -maxSteps := by exact_mod_cast hlow
      have hedge : steps * perStep ≤ -maxSteps * perStep :=
        mul_le_mul_of_nonneg_right (by linarith [hround.1]) hpos.le
      rw [min_eq_right hhigh, max_eq_left hlow.le]
      push_cast
      constructor <;> linarith [hreach.1]
    · have hup := mul_le_mul_of_nonneg_right hround.2 hpos.le
      have hdown := mul_le_mul_of_nonneg_right hround.1 hpos.le
      rw [min_eq_right hhigh, max_eq_right hlow, hwanted]
      constructor <;> linarith

/-- What the tick leaves of a reachable frequency fits the frequency knob. -/
theorem abs_sub_tickOffsetUs_le {nominalTickUs : Int} (hnominal : 1000 ≤ nominalTickUs)
    {wanted : R} (hreach : |wanted| ≤ linuxMaxSlewPpm nominalTickUs) :
    |wanted - (tickOffsetUs wanted nominalTickUs : R) * ppmPerUs nominalTickUs| ≤ 500 := by
  have hpositive : 0 < nominalTickUs := by omega
  rw [linuxMaxSlewPpm_of_pos hpositive] at hreach
  unfold tickOffsetUs
  dsimp only
  rw [linuxMaxAdjFreqPpm_eq]
  split
  · exact abs_sub_steps_le (ppmPerUs_pos hpositive) (ppmPerUs_le hnominal)
      (maxTickOffsetUs_nonneg hpositive) hreach
  · next hnarrow =>
    rw [Int.cast_zero, zero_mul, sub_zero]
    exact not_lt.mp hnarrow

/-- The residual's clamp never bites. -/
theorem linuxTickAndFreq_eq {nominalTickUs : Int} (hnominal : 1000 ≤ nominalTickUs)
    (totalPpm : R) :
    let wanted := clamp (-linuxMaxSlewPpm nominalTickUs) (linuxMaxSlewPpm nominalTickUs) totalPpm
    linuxTickAndFreq totalPpm nominalTickUs =
      (nominalTickUs + tickOffsetUs wanted nominalTickUs,
        wanted - (tickOffsetUs wanted nominalTickUs : R) * ppmPerUs nominalTickUs) := by
  have hpositive : 0 < nominalTickUs := by omega
  have hresidual := abs_sub_tickOffsetUs_le hnominal
    (abs_clamp_le (linuxMaxSlewPpm_nonneg hpositive) totalPpm)
  unfold linuxTickAndFreq
  dsimp only
  rw [if_neg (not_le.mpr hpositive), linuxMaxAdjFreqPpm_eq,
    ← linuxMaxSlewPpm_of_pos hpositive, clamp_of_abs_le hresidual]

/-- **The driver delivers what it is asked, within the range it advertises.** -/
theorem linuxTickAndFreq_delivers {nominalTickUs tickUs : Int} {totalPpm residualPpm : R}
    (hnominal : 1000 ≤ nominalTickUs)
    (h : linuxTickAndFreq totalPpm nominalTickUs = (tickUs, residualPpm)) :
    |residualPpm| ≤ 500 ∧
      |((tickUs - nominalTickUs : Int) : R)| ≤ nominalTickUs / 10 ∧
      (|totalPpm| ≤ 500 → tickUs = nominalTickUs) ∧
      ((tickUs - nominalTickUs : Int) : R) * 1000000 / nominalTickUs + residualPpm =
        clamp (-linuxMaxSlewPpm nominalTickUs) (linuxMaxSlewPpm nominalTickUs) totalPpm := by
  have hpositive : 0 < nominalTickUs := by omega
  have hmax := linuxMaxSlewPpm_nonneg (R := R) hpositive
  have hclamp := abs_clamp_le hmax totalPpm
  rw [linuxTickAndFreq_eq hnominal, Prod.mk.injEq] at h
  obtain ⟨rfl, rfl⟩ := h
  rw [add_sub_cancel_left]
  refine ⟨abs_sub_tickOffsetUs_le hnominal hclamp, ?_, fun hnarrow => ?_, ?_⟩
  · rw [← Int.cast_abs]
    exact (Int.cast_le.mpr (abs_tickOffsetUs_le hpositive _)).trans
      (maxTickOffsetUs_le nominalTickUs)
  · rw [clamp_of_abs_le (hnarrow.trans (le_linuxMaxSlewPpm hpositive)),
      tickOffsetUs_of_abs_le hnarrow, Int.add_zero]
  · have hcast : (nominalTickUs : R) ≠ 0 := Int.cast_ne_zero.mpr hpositive.ne'
    unfold ppmPerUs
    norm_num only
    ring

/-- At the usual 10 ms tick, 1234 ppm is twelve ticks and 34 ppm. -/
theorem linuxTickAndFreq_delivers_usual :
    |(34 : Rat)| ≤ 500 ∧ |((10012 - 10000 : Int) : Rat)| ≤ (10000 : Int) / 10 ∧
      (|(1234 : Rat)| ≤ 500 → (10012 : Int) = 10000) ∧
      ((10012 - 10000 : Int) : Rat) * 1000000 / (10000 : Int) + 34 =
        clamp (-linuxMaxSlewPpm 10000) (linuxMaxSlewPpm 10000) 1234 :=
  linuxTickAndFreq_delivers (by decide) (by decide +kernel)

end RustyTime
