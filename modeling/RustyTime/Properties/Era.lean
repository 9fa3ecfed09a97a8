import Mathlib.Tactic.Linarith
import Mathlib.Tactic.NormNum
import Mathlib.Tactic.Ring
import RustyTime.Daemon.Query
import RustyTime.Infra.Era
import RustyTime.Wasm.TimeClient

/-!
# Era arithmetic

A timestamp keeps the second count modulo 2^32. What it stands for is had back near a pivot, and
from the difference of two.

* `toNat_fromUnix` — the word is the number of ticks since 1900, modulo 2^64
* `era_exact` — both ways back give the instant itself, on every side of the wraps
-/

namespace RustyTime

namespace NtpTimestamp

/-! ## What a timestamp stands for -/

/-- The part of a second, in ticks of `2^-32` s. -/
def fracTicks (nanos : UInt32) : Nat := nanos.toNat * 2 ^ 32 / 1000000000

/-- The ticks from 1900 to a Unix time. -/
def ticks (secs : Int64) (nanos : UInt32) : Int :=
  (secs.toInt + 2208988800) * 2 ^ 32 + fracTicks nanos

/-- The instant of a Unix time, rounded down to a tick. -/
def instant {R : Type*} [Field R] (secs : Int64) (nanos : UInt32) : R :=
  (secs.toInt : R) + (fracTicks nanos : R) / 4294967296

theorem fracTicks_lt {nanos : UInt32} (h : nanos.toNat < 1000000000) :
    fracTicks nanos < 2 ^ 32 := by
  unfold fracTicks
  omega

/-- Masking keeps the low half of a word. -/
theorem toNat_and_low (w : UInt64) : (w &&& 0xFFFFFFFF).toNat = w.toNat % 2 ^ 32 := by
  rw [UInt64.toNat_and]
  exact Nat.and_two_pow_sub_one_eq_mod _ 32

/-- A signed word as the unsigned one. -/
theorem toNat_toUInt64 (secs : Int64) : (secs.toUInt64.toNat : Int) = secs.toInt % 2 ^ 64 := by
  have hbmod : secs.toInt = (secs.toUInt64.toNat : Int).bmod (2 ^ 64) :=
    BitVec.toInt_eq_toNat_bmod secs.toBitVec
  have hlt : secs.toUInt64.toNat < 2 ^ 64 := secs.toUInt64.toNat_lt
  have hmod : ((secs.toUInt64.toNat : Int).bmod (2 ^ 64)) % (2 ^ 64 : Nat) =
      (secs.toUInt64.toNat : Int) % (2 ^ 64 : Nat) := Int.bmod_emod
  rw [hbmod]
  omega

/-- The low 32 bits of the second count. -/
theorem toNat_ntpSecs (secs : Int64) :
    (((secs + 2208988800).toUInt64 &&& 0xFFFFFFFF).toNat : Int) =
      (secs.toInt + 2208988800) % 2 ^ 32 := by
  have hadd : (secs + 2208988800).toUInt64.toNat =
      (secs.toUInt64.toNat + 2208988800) % 2 ^ 64 := by
    rw [Int64.toUInt64_add, UInt64.toNat_add]
    rfl
  have hword := toNat_toUInt64 secs
  rw [toNat_and_low, hadd]
  omega

/-- The fraction is below 2^32 already: the mask leaves it. -/
theorem toNat_frac {nanos : UInt32} (h : nanos.toNat < 1000000000) :
    (((nanos.toUInt64 <<< 32) / 1000000000) &&& 0xFFFFFFFF).toNat = fracTicks nanos := by
  have hshift : (nanos.toUInt64 <<< 32).toNat = nanos.toNat * 2 ^ 32 := by
    rw [UInt64.toNat_shiftLeft, UInt32.toNat_toUInt64, Nat.shiftLeft_eq]
    refine Nat.mod_eq_of_lt ?_
    have h32 : (32 : UInt64).toNat % 64 = 32 := rfl
    rw [h32]
    omega
  have hdiv : ((nanos.toUInt64 <<< 32) / 1000000000).toNat = fracTicks nanos := by
    rw [UInt64.toNat_div, hshift]
    rfl
  rw [toNat_and_low, hdiv, Nat.mod_eq_of_lt (fracTicks_lt h)]

/-- The two halves of the word stand side by side. -/
theorem toNat_val (secs : Int64) {nanos : UInt32} (h : nanos.toNat < 1000000000) :
    (fromUnix secs nanos).val.toNat =
      ((secs + 2208988800).toUInt64 &&& 0xFFFFFFFF).toNat * 2 ^ 32 + fracTicks nanos := by
  have hlt : ((secs + 2208988800).toUInt64 &&& 0xFFFFFFFF).toNat < 2 ^ 32 := by
    rw [toNat_and_low]
    exact Nat.mod_lt _ (Nat.two_pow_pos 32)
  have h32 : (32 : UInt64).toNat % 64 = 32 := rfl
  unfold fromUnix
  dsimp only
  rw [UInt64.toNat_or, UInt64.toNat_shiftLeft, toNat_frac h, h32, Nat.mod_eq_of_lt,
    ← Nat.shiftLeft_add_eq_or_of_lt (fracTicks_lt h), Nat.shiftLeft_eq]
  rw [Nat.shiftLeft_eq]
  omega

/-- **The word is the number of ticks**, modulo 2^64. -/
theorem toNat_fromUnix (secs : Int64) {nanos : UInt32} (h : nanos.toNat < 1000000000) :
    ((fromUnix secs nanos).val.toNat : Int) = ticks secs nanos % 2 ^ 64 := by
  have hsecs := toNat_ntpSecs secs
  have hlt := fracTicks_lt h
  rw [toNat_val secs h]
  unfold ticks
  omega

/-- The second count of the wire. -/
theorem seconds_fromUnix (secs : Int64) {nanos : UInt32} (h : nanos.toNat < 1000000000) :
    ((fromUnix secs nanos).seconds.toNat : Int) = (secs.toInt + 2208988800) % 2 ^ 32 := by
  have hsecs := toNat_ntpSecs secs
  have hlt := fracTicks_lt h
  have hhigh : (fromUnix secs nanos).seconds.toNat =
      (fromUnix secs nanos).val.toNat / 2 ^ 32 % 2 ^ 32 := by
    unfold seconds
    rw [UInt64.toNat_toUInt32, UInt64.toNat_shiftRight, Nat.shiftRight_eq_div_pow]
    rfl
  rw [hhigh, toNat_val secs h]
  omega

/-- The fraction of the wire. -/
theorem fraction_fromUnix (secs : Int64) {nanos : UInt32} (h : nanos.toNat < 1000000000) :
    (fromUnix secs nanos).fraction.toNat = fracTicks nanos := by
  have hlt := fracTicks_lt h
  have hlow : (fromUnix secs nanos).fraction.toNat = (fromUnix secs nanos).val.toNat % 2 ^ 32 :=
    UInt64.toNat_toUInt32 _
  rw [hlow, toNat_val secs h]
  omega

end NtpTimestamp

open NtpTimestamp Infra

variable {R : Type} [Field R] [LinearOrder R] [IsStrictOrderedRing R]

/-! ## Near a pivot -/

/-- A timestamp read in the era of 1900. -/
def eraBase (ts : NtpTimestamp) : R :=
  (ts.seconds.toNat : R) - Query.unixEpochOffset + (ts.fraction.toNat : R) / 4294967296

/-- An instant is the timestamp read in its own era. -/
theorem instant_eq (secs : Int64) {nanos : UInt32} (h : nanos.toNat < 1000000000) :
    (instant secs nanos : R) = eraBase (fromUnix secs nanos) +
      (((secs.toInt + 2208988800) / 2 ^ 32 : Int) : R) * 4294967296 := by
  have hsplit : secs.toInt = ((fromUnix secs nanos).seconds.toNat : Int) - 2208988800 +
      (secs.toInt + 2208988800) / 2 ^ 32 * 4294967296 := by
    rw [seconds_fromUnix secs h]
    omega
  unfold instant eraBase Query.unixEpochOffset
  rw [fraction_fromUnix secs h]
  generalize (secs.toInt + 2208988800) / 2 ^ 32 = era at hsplit ⊢
  rw [hsplit]
  push_cast
  ring

/-- The command takes the nearest of three eras. -/
theorem query_ntpToUnixNear (ts : NtpTimestamp) (pivot : R) :
    Query.ntpToUnixNear ts pivot =
      Era.nearest pivot (fun k : R => eraBase ts + k * 4294967296) (eraBase ts) [-1, 1] := by
  have hspan : (4294967296.0 : R) = 4294967296 := by norm_num
  unfold Query.ntpToUnixNear Era.nearest eraBase Query.unixEpochOffset
  simp only [hspan]

/-- And so does the browser client. -/
theorem wasm_ntpToUnixNear (ts : NtpTimestamp) (pivot : R) :
    ntpToUnixNear ts pivot =
      Era.nearest pivot (fun k : R => eraBase ts + k * 4294967296) (eraBase ts) [-1, 1] := by
  have hspan : (4294967296.0 : R) = 4294967296 := by norm_num
  have hoffset : (2208988800.0 : R) = 2208988800 := by norm_num
  unfold ntpToUnixNear Era.nearest eraBase Query.unixEpochOffset eraS
  simp only [hspan, hoffset]

/-- **The nearest of three eras is the instant's own.** -/
theorem nearest_instant {secs : Int64} {nanos : UInt32} {pivot : R}
    (hlow : -2208988800 - 2 ^ 32 ≤ secs.toInt) (hhigh : secs.toInt < 2085978496 + 2 ^ 32)
    (h : nanos.toNat < 1000000000) (hnear : |instant secs nanos - pivot| < 2 ^ 31) :
    Era.nearest pivot (fun k : R => eraBase (fromUnix secs nanos) + k * 4294967296)
      (eraBase (fromUnix secs nanos)) [-1, 1] = instant secs nanos := by
  have heq := instant_eq (R := R) secs h
  have hhalf : (4294967296 : R) / 2 = 2 ^ 31 := by norm_num
  have hkeys : ([-1, 1] : List R) = ([-1, 1] : List Int).map Int.cast := by simp
  -- the eras before, of and after 1900
  have hera : (secs.toInt + 2208988800) / 2 ^ 32 = 0 ∨
      (secs.toInt + 2208988800) / 2 ^ 32 ∈ ([-1, 1] : List Int) := by
    simp only [List.mem_cons, List.not_mem_nil, or_false]
    omega
  rw [heq] at hnear ⊢
  rw [hkeys]
  exact Era.nearest_period hera (by rwa [hhalf])

/-! ## Differences -/

/-- An instant in ticks since 1900. -/
theorem instant_eq_ticks (secs : Int64) (nanos : UInt32) :
    (instant secs nanos : R) = (ticks secs nanos : R) / 4294967296 - 2208988800 := by
  unfold instant ticks
  push_cast
  ring

/-- **A difference of less than 2^31 s is exact.** -/
theorem secondsSince_fromUnix {secs₁ secs₂ : Int64} {nanos₁ nanos₂ : UInt32}
    (h₁ : nanos₁.toNat < 1000000000) (h₂ : nanos₂.toNat < 1000000000)
    (hnear : |(instant secs₂ nanos₂ : R) - instant secs₁ nanos₁| < 2 ^ 31) :
    (fromUnix secs₂ nanos₂).secondsSince (fromUnix secs₁ nanos₁) =
      (instant secs₂ nanos₂ : R) - instant secs₁ nanos₁ := by
  have hdiff : (instant secs₂ nanos₂ : R) - instant secs₁ nanos₁ =
      ((ticks secs₂ nanos₂ - ticks secs₁ nanos₁ : Int) : R) / 4294967296 := by
    rw [instant_eq_ticks, instant_eq_ticks]
    push_cast
    ring
  -- in ticks the difference fits a signed word
  have hticks : |ticks secs₂ nanos₂ - ticks secs₁ nanos₁| < 2 ^ 63 := by
    rw [hdiff, abs_div, abs_of_pos (by norm_num : (0 : R) < 4294967296), div_lt_iff₀ (by norm_num)]
      at hnear
    have hbound : ((|ticks secs₂ nanos₂ - ticks secs₁ nanos₁| : Int) : R) <
        ((2 ^ 63 : Int) : R) := by
      rw [Int.cast_abs]
      refine hnear.trans_le ?_
      norm_num
    exact_mod_cast hbound
  have hword := Era.toInt_sub_of_emod (toNat_fromUnix secs₂ h₂) (toNat_fromUnix secs₁ h₁)
    (neg_le_of_abs_le hticks.le) (lt_of_abs_lt hticks)
  have hfrac : (4294967296.0 : R) = 4294967296 := by norm_num
  unfold secondsSince
  rw [hword, hfrac, hdiff]

/-! ## Both ways back -/

/-- **Era arithmetic is exact**: near a pivot either copy gives the instant, and a difference is
that of the instants, on every side of the wraps of 1900 and 2036. -/
theorem era_exact :
    (∀ (secs : Int64) (nanos : UInt32) (pivot : R), -2208988800 - 2 ^ 32 ≤ secs.toInt →
      secs.toInt < 2085978496 + 2 ^ 32 → nanos.toNat < 1000000000 →
      |instant secs nanos - pivot| < 2 ^ 31 →
        Query.ntpToUnixNear (fromUnix secs nanos) pivot = instant secs nanos ∧
          ntpToUnixNear (fromUnix secs nanos) pivot = instant secs nanos) ∧
    ∀ (secs₁ secs₂ : Int64) (nanos₁ nanos₂ : UInt32), nanos₁.toNat < 1000000000 →
      nanos₂.toNat < 1000000000 → |(instant secs₂ nanos₂ : R) - instant secs₁ nanos₁| < 2 ^ 31 →
        (fromUnix secs₂ nanos₂).secondsSince (fromUnix secs₁ nanos₁) =
          (instant secs₂ nanos₂ : R) - instant secs₁ nanos₁ := by
  refine ⟨fun secs nanos pivot hlow hhigh h hnear => ⟨?_, ?_⟩, fun _ _ _ _ h₁ h₂ hnear => ?_⟩
  · rw [query_ntpToUnixNear]
    exact nearest_instant hlow hhigh h hnear
  · rw [wasm_ntpToUnixNear]
    exact nearest_instant hlow hhigh h hnear
  · exact secondsSince_fromUnix h₁ h₂ hnear

/-- Across the wrap of 2036, from half a second before it. -/
theorem era_exact_2036 :
    Query.ntpToUnixNear (fromUnix 2085978495 500000000) (2085978497 : ℚ) = 4171956991 / 2 ∧
      ntpToUnixNear (fromUnix 2085978497 500000000) (2085978495 : ℚ) = 4171956995 / 2 ∧
      (fromUnix 2085978497 500000000).secondsSince (fromUnix 2085978495 500000000) = (2 : ℚ) := by
  have hsecs₁ : (2085978495 : Int64).toInt = 2085978495 := rfl
  have hsecs₂ : (2085978497 : Int64).toInt = 2085978497 := rfl
  have hnanos : (500000000 : UInt32).toNat < 1000000000 := by decide
  have hbefore : (instant 2085978495 500000000 : ℚ) = 4171956991 / 2 := by
    have hfrac : fracTicks 500000000 = 2147483648 := rfl
    rw [instant, hsecs₁, hfrac]
    norm_num
  have hafter : (instant 2085978497 500000000 : ℚ) = 4171956995 / 2 := by
    have hfrac : fracTicks 500000000 = 2147483648 := rfl
    rw [instant, hsecs₂, hfrac]
    norm_num
  obtain ⟨hnear, hsince⟩ := era_exact (R := ℚ)
  refine ⟨?_, ?_, ?_⟩
  · rw [(hnear 2085978495 500000000 2085978497 (by decide) (by decide) hnanos
      (by rw [hbefore]; norm_num [abs_lt])).1, hbefore]
  · rw [(hnear 2085978497 500000000 2085978495 (by decide) (by decide) hnanos
      (by rw [hafter]; norm_num [abs_lt])).2, hafter]
  · rw [hsince 2085978495 2085978497 500000000 500000000 hnanos hnanos
      (by rw [hbefore, hafter]; norm_num [abs_lt]), hbefore, hafter]
    norm_num

end RustyTime
