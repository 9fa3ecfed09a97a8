import Mathlib.Data.Nat.Log
import RustyTime.Infra.Bytes

/-!
# Elements of a tag, a length and contents

The length is one octet below 128, or an octet that counts the octets of the length after it, which
are at most `wide`. The shortest of these is DER's.

* `Element` — the octets of an element, `Leads` — a string that starts with one
* `element_spec` — the shortest ones are an element's
-/

namespace Infra.Tlv

open Infra.Bytes

/-- The octets `octets` say the length `n`. -/
inductive Length (wide : Nat) : Nat → List UInt8 → Prop
  | short {n : Nat} (h : n < 128) : Length wide n [UInt8.ofNat n]
  | long {digits : List UInt8} (hne : digits ≠ []) (hwide : digits.length ≤ wide) :
    Length wide (beNat digits) (UInt8.ofNat (128 + digits.length) :: digits)

theorem Length.cons {wide n : Nat} {octets : List UInt8} (h : Length wide n octets) :
    ∃ first more, octets = first :: more := by
  cases h with
  | short => exact ⟨_, _, rfl⟩
  | long => exact ⟨_, _, rfl⟩

/-- `octets` are an element. -/
def Element (wide : Nat) (tag : UInt8) (contents octets : List UInt8) : Prop :=
  ∃ length, Length wide contents.length length ∧ octets = tag :: length ++ contents

/-- `input` starts with an element, and `rest` follows it. -/
def Leads (wide : Nat) (tag : UInt8) (contents input rest : List UInt8) : Prop :=
  ∃ octets, Element wide tag contents octets ∧ input = octets ++ rest

/-! ## The shortest length -/

/-- The octets of a number, the first of them not zero. -/
def digits (n : Nat) : List UInt8 := toBe (Nat.log 256 n + 1) n

/-- The shortest octets of a length. -/
def length (n : Nat) : List UInt8 :=
  if n < 128 then [UInt8.ofNat n] else UInt8.ofNat (128 + (digits n).length) :: digits n

def element (tag : UInt8) (contents : List UInt8) : List UInt8 :=
  tag :: length contents.length ++ contents

theorem beNat_digits (n : Nat) : beNat (digits n) = n :=
  beNat_toBe_of_lt (Nat.lt_pow_succ_log_self (by decide) n)

theorem length_digits_le {wide n : Nat} (hwide : wide ≠ 0) (h : n < 256 ^ wide) :
    (digits n).length ≤ wide := by
  rw [digits, length_toBe]
  exact Nat.log_lt_of_lt_pow' hwide h

theorem length_spec {wide n : Nat} (hwide : wide ≠ 0) (h : n < 256 ^ wide) :
    Length wide n (length n) := by
  unfold length
  split
  · next hshort => exact .short hshort
  · have hne : digits n ≠ [] := by
      intro hnil
      have hlen := congrArg List.length hnil
      simp [digits] at hlen
    have hlong := Length.long hne (length_digits_le hwide h)
    rwa [beNat_digits] at hlong

/-- **What is written is an element.** -/
theorem element_spec {wide : Nat} (hwide : wide ≠ 0) (tag : UInt8) {contents : List UInt8}
    (h : contents.length < 256 ^ wide) : Element wide tag contents (element tag contents) :=
  ⟨_, length_spec hwide h, rfl⟩

theorem length_le_element (tag : UInt8) (contents : List UInt8) :
    contents.length ≤ (element tag contents).length := by
  simp [element]
  omega

end Infra.Tlv
