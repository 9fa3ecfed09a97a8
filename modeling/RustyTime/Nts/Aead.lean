import Mathlib.Data.Nat.ModEq
import RustyTime.Infra.Bytes

/-!
# The sealed box under NTS

`rusty_time-nts/src/aead.rs` wraps the AES-SIV-CMAC-256 of a library. The cipher is a parameter
here; `Ideal` is what the protocol takes for granted of it.
-/

namespace RustyTime

open Infra.Bytes

/-- The pair of keys of a session. -/
structure NtsKeys where
  c2s : Vector UInt8 32
  s2c : Vector UInt8 32
deriving DecidableEq

/-- The cipher: `encrypt` under `seal`, `decrypt` under `open`, each with a key and the
associated data. -/
structure Aead where
  encrypt : Vector UInt8 32 → List (List UInt8) → List UInt8 → Option (List UInt8)
  decrypt : Vector UInt8 32 → List (List UInt8) → List UInt8 → Option (List UInt8)

/-- The length of the tag in front of a ciphertext. -/
def tagLen : Nat := 16

/-- An ideal cipher: everything seals, the same key and associated data open it, and nothing
else opens. -/
structure Aead.Ideal (aead : Aead) : Prop where
  seals : ∀ key aad plaintext, (aead.encrypt key aad plaintext).isSome
  opens : ∀ key aad plaintext sealed, aead.encrypt key aad plaintext = some sealed →
    aead.decrypt key aad sealed = some plaintext
  opensOnly : ∀ key aad plaintext sealed, aead.decrypt key aad sealed = some plaintext →
    aead.encrypt key aad plaintext = some sealed
  length : ∀ key aad plaintext sealed, aead.encrypt key aad plaintext = some sealed →
    sealed.length = plaintext.length + tagLen

/-- A cipher that hides nothing: a tag in front of the plaintext. -/
def Aead.ofTag (tag : Vector UInt8 32 → List (List UInt8) → List UInt8 → Nat) : Aead where
  encrypt key aad plaintext := some (toBe tagLen (tag key aad plaintext) ++ plaintext)
  decrypt key aad sealed :=
    let plaintext := sealed.drop tagLen
    if sealed = toBe tagLen (tag key aad plaintext) ++ plaintext then some plaintext else none

theorem Aead.ofTag_ideal (tag : Vector UInt8 32 → List (List UInt8) → List UInt8 → Nat) :
    (Aead.ofTag tag).Ideal where
  seals _ _ _ := rfl
  opens key aad plaintext sealed h := by
    obtain rfl := Option.some.inj h
    have hdrop : (toBe tagLen (tag key aad plaintext) ++ plaintext).drop tagLen = plaintext :=
      List.drop_left' (length_toBe _ _)
    unfold Aead.ofTag
    dsimp only
    rw [hdrop, if_pos rfl]
  opensOnly key aad plaintext sealed h := by
    unfold Aead.ofTag at h ⊢
    dsimp only at h ⊢
    split at h
    · next htag =>
      obtain rfl := Option.some.inj h
      exact congrArg some htag.symm
    · cases h
  length key aad plaintext sealed h := by
    obtain rfl := Option.some.inj h
    rw [List.length_append, length_toBe, Nat.add_comm]

/-- An ideal cipher that hides nothing: its tag is a checksum of all it depends on. -/
def Aead.checksum : Aead where
  encrypt key aad plaintext :=
    some (toBe tagLen (beNat (key.toList ++ aad.flatten ++ plaintext)) ++ plaintext)
  decrypt key aad sealed :=
    let plaintext := sealed.drop tagLen
    if sealed = toBe tagLen (beNat (key.toList ++ aad.flatten ++ plaintext)) ++ plaintext then
      some plaintext
    else none

theorem Aead.checksum_ideal : Aead.checksum.Ideal :=
  Aead.ofTag_ideal fun key aad plaintext => beNat (key.toList ++ aad.flatten ++ plaintext)

/-- A ciphertext under one of `keys` opens under no other of them. -/
def Aead.Separates (aead : Aead) (keys : List (Vector UInt8 32)) : Prop :=
  ∀ key ∈ keys, ∀ other ∈ keys, key ≠ other → ∀ aad plaintext sealed,
    aead.encrypt key aad plaintext = some sealed → aead.decrypt other aad sealed = none

/-- A cipher whose tag adds the key to a checksum of the rest. -/
def Aead.keyed : Aead :=
  .ofTag fun key aad plaintext => beNat key.toList + beNat (aad.flatten ++ plaintext)

/-- It separates keys that differ in their low half. -/
theorem Aead.keyed_separates {keys : List (Vector UInt8 32)}
    (h : ∀ key ∈ keys, ∀ other ∈ keys, key ≠ other →
      beNat key.toList % 256 ^ tagLen ≠ beNat other.toList % 256 ^ tagLen) :
    Aead.keyed.Separates keys := by
  intro key hkey other hother hne aad plaintext sealed hsealed
  obtain rfl := Option.some.inj hsealed
  have hdrop : (toBe tagLen (beNat key.toList + beNat (aad.flatten ++ plaintext)) ++ plaintext).drop
      tagLen = plaintext := List.drop_left' (length_toBe _ _)
  have hlow := h key hkey other hother hne
  unfold Aead.keyed Aead.ofTag
  dsimp only
  rw [hdrop, if_neg]
  intro htag
  -- equal tags are equal sums, and what is added is the same
  have hsum := congrArg beNat (List.append_cancel_right htag)
  rw [beNat_toBe, beNat_toBe] at hsum
  exact hlow (Nat.ModEq.add_right_cancel' _ hsum)

end RustyTime
