import Mathlib.Algebra.Group.Nat.Defs
import Mathlib.Data.List.Induction

/-!
# Big-endian numbers in byte strings

A byte string is a `List UInt8`. `toBe k n` writes the `k` low bytes of `n`, `beNat` reads a
whole string as a number, `copyAt` overwrites a slice of a buffer.

* `beNat_toBe`, `toBe_beNat` — each undoes the other, at its width
* `copyAt_blank` — a buffer filled from the front
-/

namespace Infra.Bytes

/-! ## Numbers -/

/-- A byte string as a number. -/
def beNat (bs : List UInt8) : Nat := bs.foldl (fun acc b => acc * 256 + b.toNat) 0

/-- The `k` low bytes of `n`. -/
def toBe : Nat → Nat → List UInt8
  | 0, _ => []
  | k + 1, n => toBe k (n / 256) ++ [UInt8.ofNat n]

@[simp] theorem length_toBe : ∀ k n, (toBe k n).length = k
  | 0, _ => rfl
  | k + 1, n => by rw [toBe, List.length_append, length_toBe k]; rfl

theorem beNat_concat (bs : List UInt8) (b : UInt8) :
    beNat (bs ++ [b]) = beNat bs * 256 + b.toNat := by
  rw [beNat, List.foldl_append]
  rfl

theorem beNat_lt (bs : List UInt8) : beNat bs < 256 ^ bs.length := by
  induction bs using List.reverseRecOn with
  | nil => exact Nat.one_pos
  | append_singleton bs b ih =>
    have hb : b.toNat < 256 := b.toNat_lt
    rw [beNat_concat, List.length_append, List.length_singleton, Nat.pow_succ]
    omega

/-- What is read back is what was written, modulo the width. -/
theorem beNat_toBe (k n : Nat) : beNat (toBe k n) = n % 256 ^ k := by
  induction k generalizing n with
  | zero => rw [Nat.pow_zero, Nat.mod_one]; rfl
  | succ k ih =>
    have hpow : 256 ^ (k + 1) = 256 * 256 ^ k := Nat.pow_succ'
    have hlow : (UInt8.ofNat n).toNat = n % 256 := UInt8.toNat_ofNat'
    rw [toBe, beNat_concat, ih, hlow, hpow, Nat.mod_mul, Nat.mul_comm, Nat.add_comm]

theorem beNat_toBe_of_lt {k n : Nat} (h : n < 256 ^ k) : beNat (toBe k n) = n := by
  rw [beNat_toBe, Nat.mod_eq_of_lt h]

/-- What is written back is what was read. -/
theorem toBe_beNat (bs : List UInt8) : toBe bs.length (beNat bs) = bs := by
  induction bs using List.reverseRecOn with
  | nil => rfl
  | append_singleton bs b ih =>
    have hb : b.toNat < 256 := b.toNat_lt
    have hquot : (beNat bs * 256 + b.toNat) / 256 = beNat bs := by omega
    have hrem : UInt8.ofNat (beNat bs * 256 + b.toNat) = b := by
      apply UInt8.toNat_inj.mp
      rw [UInt8.toNat_ofNat']
      omega
    rw [List.length_append, List.length_singleton, toBe, beNat_concat, hquot, hrem, ih]

theorem toBe_beNat_of_length {bs : List UInt8} {k : Nat} (h : bs.length = k) :
    toBe k (beNat bs) = bs := h ▸ toBe_beNat bs

/-! ## Buffers -/

/-- `buf` with the slice from `off` on overwritten by `bytes`. -/
def copyAt (buf : List UInt8) (off : Nat) (bytes : List UInt8) : List UInt8 :=
  buf.take off ++ bytes ++ buf.drop (off + bytes.length)

theorem length_copyAt {buf bytes : List UInt8} {off : Nat} (h : off + bytes.length ≤ buf.length) :
    (copyAt buf off bytes).length = buf.length := by
  rw [copyAt, List.length_append, List.length_append, List.length_take, List.length_drop]
  omega

/-- A copy right after what is already written, into a buffer still blank from there. -/
theorem copyAt_blank {done bytes : List UInt8} {n : Nat} {blank : UInt8} (off : Nat)
    (hoff : done.length = off) :
    copyAt (done ++ List.replicate n blank) off bytes =
      done ++ bytes ++ List.replicate (n - bytes.length) blank := by
  rw [copyAt, ← hoff, List.take_left, List.drop_append,
    List.drop_eq_nil_of_le (Nat.le_add_right _ _),
    List.nil_append, Nat.add_sub_cancel_left, List.drop_replicate]

end Infra.Bytes
