import Mathlib.Algebra.Order.Field.Basic

/-!
# Numbers with the special values of IEEE 754

The finite numbers are those of an ordered field, so nothing rounds or overflows and zero has no
sign. Infinities and NaN propagate as the standard has them.

* `isFinite_add` — a finite summand changes no special value
* `isFinite_max_zero` — one number alone is infinitely greater than zero
-/

namespace Infra.Ieee

/-- A binary64. -/
inductive F64 (R : Type*) where
  | finite (x : R)
  | infinite (negative : Bool)
  | nan
deriving DecidableEq

namespace F64

variable {R : Type*}

def isFinite : F64 R → Bool
  | finite _ => true
  | infinite _ => false
  | nan => false

@[simp] theorem isFinite_finite (x : R) : (finite x).isFinite = true := rfl

@[simp] theorem isFinite_infinite (negative : Bool) :
    (infinite negative : F64 R).isFinite = false := rfl

@[simp] theorem isFinite_nan : (nan : F64 R).isFinite = false := rfl

section Arithmetic

variable [Field R]

instance : Zero (F64 R) := ⟨finite 0⟩

instance : Add (F64 R) where
  add
    | finite x, finite y => finite (x + y)
    | finite _, infinite negative => infinite negative
    | infinite negative, finite _ => infinite negative
    | infinite negative, infinite negative' =>
      if negative = negative' then infinite negative else nan
    | nan, _ => nan
    | _, nan => nan

instance : Neg (F64 R) where
  neg
    | finite x => finite (-x)
    | infinite negative => infinite (!negative)
    | nan => nan

instance : Sub (F64 R) := ⟨fun a b => a + -b⟩

theorem zero_eq : (0 : F64 R) = finite 0 := rfl

/-- A finite summand changes no special value. -/
@[simp] theorem isFinite_add (a : F64 R) (x : R) : (a + finite x).isFinite = a.isFinite := by
  cases a <;> rfl

end Arithmetic

section Order

variable [LinearOrder R]

/-- `<`, which NaN never satisfies. -/
def lt : F64 R → F64 R → Bool
  | finite x, finite y => decide (x < y)
  | finite _, infinite negative => !negative
  | infinite negative, finite _ => negative
  | infinite negative, infinite negative' => negative && !negative'
  | nan, _ => false
  | _, nan => false

/-- The greater number, or the only one. -/
instance : Max (F64 R) where
  max a b := if a = nan then b else if b = nan then a else if a.lt b then b else a

@[simp] theorem finite_max (x y : R) : max (finite x) (finite y) = (finite (max x y) : F64 R) := by
  show (if finite x = nan then _ else if finite y = nan then _ else
    if lt (finite x) (finite y) = true then _ else _) = _
  rw [if_neg (by simp), if_neg (by simp)]
  rcases lt_or_ge x y with h | h
  · rw [if_pos (by simp [lt, h]), max_eq_right h.le]
  · rw [if_neg (by simp [lt, h.not_gt]), max_eq_left h]

end Order

section Both

variable [Field R] [LinearOrder R]

/-- The infinity that a finite number makes of one as a factor. -/
def scaleInfinite (x : R) (negative : Bool) : F64 R :=
  if x = 0 then nan else infinite (negative != decide (x < 0))

instance : Mul (F64 R) where
  mul
    | finite x, finite y => finite (x * y)
    | finite x, infinite negative => scaleInfinite x negative
    | infinite negative, finite y => scaleInfinite y negative
    | infinite negative, infinite negative' => infinite (negative != negative')
    | nan, _ => nan
    | _, nan => nan

@[simp] theorem finite_mul (x y : R) : finite x * finite y = (finite (x * y) : F64 R) := rfl

/-- Of all but one number the greater of it and zero is finite. -/
theorem isFinite_max_zero {a : F64 R} : (max a 0).isFinite = true ↔ a ≠ infinite false := by
  cases a with
  | finite x => simp [zero_eq]
  | infinite negative => cases negative <;> simp [zero_eq, max, lt]
  | nan => simp [zero_eq, max]

end Both

end F64

end Infra.Ieee
