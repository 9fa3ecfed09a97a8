import Mathlib.Data.Fintype.Card
import RustyTime.Core.Index
import RustyTime.Infra.Probe

/-!
# The index is a finite map

`Index.Sound` says that an index over a set of live slots is the map from each live slot's key
to that slot: the bucket array, read as a cyclic table, is probed, holds one bucket for each
live slot and nothing else. `insert` and `remove` keep it, and `get` reads it.

The walks carry a bound on their steps. Under `Sound` some bucket is free, so each walk ends
before the bound does.
-/

namespace RustyTime.Index

open Infra.Probe

set_option linter.unusedSectionVars false

variable {K ρ : Type} {n : ℕ} [NeZero n]

/-! ## The bucket array as a cyclic table -/

/-- The bucket array read as a table: a free bucket is an empty place. -/
def tab (n : ℕ) (buckets : Array Bucket) : ZMod n → Option Bucket := fun p =>
  match buckets[p.val]? with
  | some b => if b.isFree then none else some b
  | none => none

/-- The bucket a probe for this hash starts at. -/
def home (n : ℕ) (b : Bucket) : ZMod n := (b.hash : ZMod n)

theorem val_cast {i : ℕ} (hi : i < n) : ((i : ZMod n)).val = i := by
  rw [ZMod.val_natCast, Nat.mod_eq_of_lt hi]

theorem tab_cast {buckets : Array Bucket} {i : ℕ} (hi : i < n) (hs : buckets.size = n) :
    ∃ b, buckets[i]? = some b ∧ tab n buckets (i : ZMod n) = if b.isFree then none else some b := by
  have hib : i < buckets.size := by omega
  refine ⟨buckets[i], by simp, ?_⟩
  simp [tab, val_cast hi, hs, hi]

theorem tab_some {buckets : Array Bucket} {p : ZMod n} {b : Bucket}
    (h : tab n buckets p = some b) : buckets[p.val]? = some b ∧ b.isFree = false := by
  unfold tab at h
  split at h
  · next c hc =>
    split at h
    · cases h
    · next hf => cases h; exact ⟨hc, by simpa using hf⟩
  · cases h

/-- Writing one bucket updates one place of the table. -/
theorem tab_set {buckets : Array Bucket} {i : ℕ} (hi : i < n) (hs : buckets.size = n)
    (b : Bucket) :
    tab n (buckets.setIfInBounds i b)
      = Function.update (tab n buckets) (i : ZMod n) (if b.isFree then none else some b) := by
  funext p
  rw [Function.update_apply]
  have hiff : p = (i : ZMod n) ↔ i = p.val := by
    constructor
    · rintro rfl; rw [val_cast hi]
    · intro h; rw [h, ZMod.natCast_zmod_val]
  unfold tab
  rw [Array.getElem?_setIfInBounds]
  by_cases hp : p = (i : ZMod n)
  · rw [if_pos hp, if_pos (hiff.mp hp), if_pos (by omega)]
  · rw [if_neg hp, if_neg (fun h => hp (hiff.mpr h))]

/-- Clearing one bucket empties one place of the table. -/
theorem tab_freeBucket {ix : Index K} {i : ℕ} (hi : i < n) (hs : ix.buckets.size = n) :
    tab n (ix.freeBucket i).buckets = Function.update (tab n ix.buckets) (i : ZMod n) none := by
  obtain ⟨b, hb, -⟩ := tab_cast (n := n) hi hs
  have : (ix.freeBucket i).buckets
      = ix.buckets.setIfInBounds i { b with handle := Bucket.empty } := by
    apply Array.ext_getElem?
    intro j
    simp only [freeBucket, Array.getElem?_modify, Array.getElem?_setIfInBounds]
    by_cases hij : i = j
    · subst hij; rw [if_pos rfl, if_pos rfl, if_pos (by omega), hb]; rfl
    · simp [hij]
  rw [this, tab_set hi hs]
  simp [Bucket.isFree]

@[simp] theorem size_freeBucket (ix : Index K) (i : ℕ) :
    (ix.freeBucket i).buckets.size = ix.buckets.size := by simp [freeBucket]

/-! ## Masking -/

/-- The shape `with_capacity` gives an index and no operation changes: `n` buckets, a power
of two that the 32-bit hash word covers. -/
structure Shape (ix : Index K) (n : ℕ) : Prop where
  mask : ix.mask + 1 = n
  size : ix.buckets.size = n
  pow : ∃ k, k ≤ 32 ∧ n = 2 ^ k

theorem Shape.and_mask {ix : Index K} (h : Shape ix n) (x : ℕ) : x &&& ix.mask = x % n := by
  obtain ⟨k, -, hk⟩ := h.pow
  have : ix.mask = 2 ^ k - 1 := by have := h.mask; omega
  rw [this, Nat.and_two_pow_sub_one_eq_mod, hk]

theorem Shape.and_mask_lt {ix : Index K} (h : Shape ix n) (x : ℕ) : x &&& ix.mask < n := by
  rw [h.and_mask]
  exact Nat.mod_lt _ (NeZero.pos n)

theorem Shape.cast_and_mask {ix : Index K} (h : Shape ix n) (x : ℕ) :
    ((x &&& ix.mask : ℕ) : ZMod n) = (x : ZMod n) := by
  rw [h.and_mask, ZMod.natCast_mod]

/-- `wrapping_sub` and the mask compute how far one bucket is past another. -/
theorem Shape.maskedSub {ix : Index K} (h : Shape ix n) {i j : ℕ} (hj : j < n) :
    ix.maskedSub i j = gap (j : ZMod n) (i : ZMod n) := by
  obtain ⟨k, hk, hn⟩ := h.pow
  have hdvd : n ∣ 18446744073709551616 := by
    rw [hn, show (18446744073709551616 : ℕ) = 2 ^ 64 by norm_num]
    exact pow_dvd_pow 2 (by omega)
  have hlt : n ≤ 18446744073709551616 := Nat.le_of_dvd (by norm_num) hdvd
  unfold Index.maskedSub gap
  rw [h.and_mask, Nat.mod_mod_of_dvd _ hdvd, ← ZMod.val_natCast, Nat.cast_sub (by omega),
    Nat.cast_add, (ZMod.natCast_eq_zero_iff _ _).mpr hdvd, add_zero]

/-! ## Probing -/

section Probing

variable [DecidableEq K] {ix : Index K} {slots : Array (Slot K ρ)} {key : K} {hash : ℕ}

/-- What `probe` stops at: an occupied bucket with the hash whose slot holds the key. -/
def Match (hash : ℕ) (key : K) (slots : Array (Slot K ρ)) (b : Bucket) : Prop :=
  b.hash = hash ∧ holds slots b.handle key = true

theorem probeFrom_match {fuel i r : ℕ} (hS : Shape ix n) (hi : i < n)
    (h : probeFrom ix hash key slots fuel i = some r) :
    r < n ∧ ∃ b, tab n ix.buckets (r : ZMod n) = some b ∧ Match hash key slots b := by
  induction fuel generalizing i with
  | zero => cases h
  | succ fuel ih =>
    obtain ⟨b, hb, ht⟩ := tab_cast (n := n) hi hS.size
    rw [probeFrom, hb] at h
    dsimp only at h
    by_cases hf : b.isFree
    · rw [if_pos hf] at h; cases h
    · rw [if_neg hf] at h
      by_cases hm : b.hash = hash ∧ holds slots b.handle key
      · rw [if_pos hm] at h
        cases h
        exact ⟨hi, b, by rw [ht, if_neg hf], hm⟩
      · rw [if_neg hm] at h
        exact ih (hS.and_mask_lt _) h

theorem probeFrom_isSome {fuel i : ℕ} {p : ZMod n} {b : Bucket} (hS : Shape ix n) (hi : i < n)
    (hp : tab n ix.buckets p = some b) (hm : Match hash key slots b)
    (hc : Covered (tab n ix.buckets) (i : ZMod n) (gap (i : ZMod n) p))
    (hfuel : gap (i : ZMod n) p < fuel) :
    (probeFrom ix hash key slots fuel i).isSome := by
  induction fuel generalizing i with
  | zero => omega
  | succ fuel ih =>
    obtain ⟨c, hcb, ht⟩ := tab_cast (n := n) hi hS.size
    rw [probeFrom, hcb]
    dsimp only
    by_cases hpi : p = (i : ZMod n)
    · subst hpi
      rw [hp] at ht
      split at ht
      · cases ht
      · next hf =>
        cases ht
        rw [if_neg hf, if_pos (show b.hash = hash ∧ holds slots b.handle key = true from hm)]
        rfl
    · have hg := gap_succ hpi
      rw [hg] at hc hfuel
      obtain ⟨hne, htail⟩ := hc.tail
      have hf : ¬ c.isFree = true := by
        intro hf
        rw [ht, if_pos hf] at hne
        exact hne rfl
      rw [if_neg hf]
      by_cases hmc : c.hash = hash ∧ holds slots c.handle key
      · rw [if_pos hmc]; rfl
      · rw [if_neg hmc]
        have hcast : (((i + 1) &&& ix.mask : ℕ) : ZMod n) = (i : ZMod n) + 1 := by
          rw [hS.cast_and_mask]; push_cast; rfl
        exact ih (hS.and_mask_lt _) (by rw [hcast]; exact htail) (by rw [hcast]; omega)

/-- The walk of `insert` ends at a free bucket, with none free before it. -/
theorem freeFrom_spec (fuel : ℕ) {i : ℕ} {z : ZMod n} (hS : Shape ix n) (hi : i < n)
    (hz : tab n ix.buckets z = none) (hfuel : gap (i : ZMod n) z < fuel) :
    freeFrom ix fuel i < n ∧ tab n ix.buckets (freeFrom ix fuel i : ZMod n) = none ∧
      Covered (tab n ix.buckets) (i : ZMod n) (gap (i : ZMod n) (freeFrom ix fuel i : ZMod n)) := by
  induction fuel generalizing i with
  | zero => omega
  | succ fuel ih =>
    obtain ⟨b, hb, ht⟩ := tab_cast (n := n) hi hS.size
    rw [freeFrom, hb]
    dsimp only
    by_cases hf : b.isFree
    · rw [if_pos hf]
      refine ⟨hi, by rw [ht, if_pos hf], ?_⟩
      rw [gap_self]
      intro e he
      omega
    · rw [if_neg hf]
      have hocc : tab n ix.buckets (i : ZMod n) = some b := by rw [ht, if_neg hf]
      have hzi : z ≠ (i : ZMod n) := by rintro rfl; rw [hz] at hocc; cases hocc
      have hcast : (((i + 1) &&& ix.mask : ℕ) : ZMod n) = (i : ZMod n) + 1 := by
        rw [hS.cast_and_mask]; push_cast; rfl
      have hg := gap_succ hzi
      obtain ⟨h1, h2, h3⟩ := ih (hS.and_mask_lt (i + 1)) (by rw [hcast]; omega)
      refine ⟨h1, h2, ?_⟩
      rw [hcast] at h3
      have hne : (freeFrom ix fuel ((i + 1) &&& ix.mask) : ZMod n) ≠ (i : ZMod n) := by
        intro he
        rw [he, hocc] at h2
        cases h2
      rw [gap_succ hne]
      exact Covered.cons (by rw [hocc]; simp) h3

end Probing

/-! ## Backward shift -/

section Shift

/-- Two tables with the same entries. -/
def SameEntries (t t' : ZMod n → Option Bucket) : Prop :=
  ∀ b, (∃ p, t' p = some b) ↔ ∃ p, t p = some b

/-- The walk of `remove` touches the bucket array only. -/
structure SameFrame (ix ix' : Index K) : Prop where
  mask : ix'.mask = ix.mask
  size : ix'.buckets.size = ix.buckets.size
  len : ix'.len = ix.len
  hasher : ix'.hasher = ix.hasher

theorem SameFrame.refl (ix : Index K) : SameFrame ix ix := ⟨rfl, rfl, rfl, rfl⟩

theorem SameFrame.trans {a b c : Index K} (h : SameFrame a b) (h' : SameFrame b c) :
    SameFrame a c :=
  ⟨h'.mask.trans h.mask, h'.size.trans h.size, h'.len.trans h.len, h'.hasher.trans h.hasher⟩

theorem SameFrame.shape {ix ix' : Index K} (h : SameFrame ix ix') (hS : Shape ix n) :
    Shape ix' n :=
  ⟨by rw [h.mask]; exact hS.mask, by rw [h.size]; exact hS.size, hS.pow⟩

/-- **The deletion walk restores the table.** It starts with the hole open, ends before the
bound on its steps when some other bucket is free, and leaves every entry reachable. -/
theorem shiftBack_spec (fuel : ℕ) {hole i g : ℕ} {z : ZMod n} :
    ∀ {ix : Index K}, Shape ix n → hole < n → i < n →
      (i : ZMod n) = (hole : ZMod n) + (g : ZMod n) →
      Shifting (home n) (tab n ix.buckets) (hole : ZMod n) g → Distinct (tab n ix.buckets) →
      tab n ix.buckets z = none → z ≠ (hole : ZMod n) → gap (i : ZMod n) z < fuel →
      SameFrame ix (shiftBack ix fuel hole i) ∧
        Probed (home n) (tab n (shiftBack ix fuel hole i).buckets) ∧
        Distinct (tab n (shiftBack ix fuel hole i).buckets) ∧
        SameEntries (tab n ix.buckets) (tab n (shiftBack ix fuel hole i).buckets) := by
  induction fuel generalizing hole i g with
  | zero => intro ix _ _ _ _ _ _ _ _ hfuel; omega
  | succ fuel ih =>
    intro ix hS hh hi hig hsh hD hz hzh hfuel
    obtain ⟨b, hb, ht⟩ := tab_cast (n := n) hi hS.size
    rw [shiftBack, hb]
    dsimp only
    by_cases hf : b.isFree
    · rw [if_pos hf] at ht ⊢
      exact ⟨SameFrame.refl ix, hsh.stop (by rw [← hig]; exact ht), hD, fun _ => Iff.rfl⟩
    · rw [if_neg hf] at ht ⊢
      have hgn : g < n := by
        refine lt_of_le_of_ne hsh.le ?_
        intro he
        rw [he, ZMod.natCast_self, add_zero] at hig
        rw [hig, hsh.empty] at ht
        cases ht
      have hzi : z ≠ (i : ZMod n) := by rintro rfl; rw [hz] at ht; cases ht
      have hcast : (((i + 1) &&& ix.mask : ℕ) : ZMod n) = (i : ZMod n) + 1 := by
        rw [hS.cast_and_mask]; push_cast; rfl
      have hstep := gap_succ hzi
      have hnext : gap ((((i + 1) &&& ix.mask : ℕ)) : ZMod n) z < fuel := by
        rw [hcast]; omega
      -- the two masked distances decide whether the hole is on the entry's path
      have htest : ix.maskedSub hole (b.hash &&& ix.mask) < ix.maskedSub i (b.hash &&& ix.mask)
          ↔ g ≤ gap (home n b) (i : ZMod n) := by
        rw [hS.maskedSub (hS.and_mask_lt _), hS.maskedSub (hS.and_mask_lt _), hS.cast_and_mask]
        exact gap_lt_gap_iff hig.symm hsh.pos hsh.le
      have htg : tab n ix.buckets ((hole : ZMod n) + (g : ZMod n)) = some b := by
        rw [← hig]; exact ht
      by_cases hm : ix.maskedSub hole (b.hash &&& ix.mask)
          < ix.maskedSub i (b.hash &&& ix.mask)
      · rw [if_pos hm]
        have hd := htest.mp hm
        have hne : (i : ZMod n) ≠ (hole : ZMod n) := by
          rw [hig]; exact add_natCast_ne hsh.pos hgn
        let moved : Index K := { ix with buckets := ix.buckets.setIfInBounds hole b }
        have hmsize : moved.buckets.size = n := by simp [moved, hS.size]
        have htab : tab n (moved.freeBucket i).buckets
            = Function.update (Function.update (tab n ix.buckets) (hole : ZMod n) (some b))
              (i : ZMod n) none := by
          rw [tab_freeBucket hi hmsize, tab_set hh hS.size, if_neg hf]
        have hframe : SameFrame ix (moved.freeBucket i) :=
          ⟨rfl, by simp [moved], rfl, rfl⟩
        have hsh' : Shifting (home n) (tab n (moved.freeBucket i).buckets) (i : ZMod n) 1 := by
          have := hsh.move hgn htg (by rw [← hig]; exact hd)
          rwa [← hig, ← htab] at this
        obtain ⟨h1, h2, h3, h4⟩ := ih (i := (i + 1) &&& ix.mask) (g := 1)
          (hframe.shape hS) hi (hS.and_mask_lt _)
          (by rw [hcast]; push_cast; rfl) hsh' (by rw [htab]; exact hD.move ht)
          (by rw [htab, Function.update_of_ne hzi, Function.update_of_ne hzh]; exact hz) hzi hnext
        refine ⟨hframe.trans h1, h2, h3, fun c => (h4 c).trans ?_⟩
        rw [htab]
        exact exists_move_iff hne hsh.empty ht c
      · rw [if_neg hm]
        have hd : ¬ g ≤ gap (home n b) (i : ZMod n) := fun hc => hm (htest.mpr hc)
        exact ih (g := g + 1) hS hh (hS.and_mask_lt _)
          (by rw [hcast, hig]; push_cast; ring)
          (hsh.skip hgn htg (by rw [← hig]; omega)) hD hz hzh hnext

end Shift

/-! ## Soundness -/

/-- The key a slot holds. -/
def keyOf (slots : Array (Slot K ρ)) (i : ℕ) : Option K := slots[i]?.map Slot.key

/-- **The index is the map from the key of each live slot to that slot.** -/
structure Sound (ix : Index K) (slots : Array (Slot K ρ)) (n : ℕ) (live : List ℕ) : Prop where
  shape : Shape ix n
  probed : Probed (home n) (tab n ix.buckets)
  distinct : Distinct (tab n ix.buckets)
  entries : ∀ b, (∃ p, tab n ix.buckets p = some b) ↔
    ∃ i ∈ live, ∃ key, keyOf slots i = some key ∧ b = ⟨ix.hashOf key, i⟩
  len : ix.len = live.length
  room : live.length < n
  nodup : live.Nodup
  keys : ∀ i ∈ live, ∃ key, keyOf slots i = some key
  inj : ∀ i ∈ live, ∀ j ∈ live, keyOf slots i = keyOf slots j → i = j
  handle : ∀ i ∈ live, i < Bucket.empty

theorem Sound.congr {ix : Index K} {slots slots' : Array (Slot K ρ)} {live : List ℕ}
    (h : Sound ix slots n live) (hk : ∀ i ∈ live, keyOf slots' i = keyOf slots i) :
    Sound ix slots' n live where
  shape := h.shape
  probed := h.probed
  distinct := h.distinct
  entries := by
    intro b
    rw [h.entries b]
    constructor
    · rintro ⟨i, hi, key, hkey, hb⟩
      exact ⟨i, hi, key, by rw [hk i hi]; exact hkey, hb⟩
    · rintro ⟨i, hi, key, hkey, hb⟩
      exact ⟨i, hi, key, by rw [← hk i hi]; exact hkey, hb⟩
  len := h.len
  room := h.room
  nodup := h.nodup
  keys := fun i hi => by rw [hk i hi]; exact h.keys i hi
  inj := fun i hi j hj he => h.inj i hi j hj (by rw [← hk i hi, ← hk j hj]; exact he)
  handle := h.handle

theorem Sound.perm {ix : Index K} {slots : Array (Slot K ρ)} {live live' : List ℕ}
    (h : Sound ix slots n live) (hp : live'.Perm live) : Sound ix slots n live' where
  shape := h.shape
  probed := h.probed
  distinct := h.distinct
  entries := by
    intro b
    rw [h.entries b]
    simp only [hp.mem_iff]
  len := by rw [h.len, hp.length_eq]
  room := by rw [hp.length_eq]; exact h.room
  nodup := hp.nodup_iff.mpr h.nodup
  keys := fun i hi => h.keys i (hp.mem_iff.mp hi)
  inj := fun i hi j hj => h.inj i (hp.mem_iff.mp hi) j (hp.mem_iff.mp hj)
  handle := fun i hi => h.handle i (hp.mem_iff.mp hi)

theorem holds_iff [DecidableEq K] {slots : Array (Slot K ρ)} {i : ℕ} {key : K} :
    holds slots i key = true ↔ keyOf slots i = some key := by
  unfold holds keyOf
  cases slots[i]? with
  | none => simp
  | some sl => simp

/-- Fewer entries than buckets leave a bucket free. -/
theorem Sound.exists_free {ix : Index K} {slots : Array (Slot K ρ)} {live : List ℕ}
    (h : Sound ix slots n live) : ∃ z, tab n ix.buckets z = none := by
  by_contra hc
  push Not at hc
  have hocc : ∀ p, ∃ b, tab n ix.buckets p = some b := fun p => Option.ne_none_iff_exists'.mp (hc p)
  choose entry hentry using hocc
  have hlive : ∀ p, (entry p).handle ∈ live := by
    intro p
    obtain ⟨i, hi, key, -, hb⟩ := (h.entries _).mp ⟨p, hentry p⟩
    rw [hb]
    exact hi
  -- a handle determines its key, hence its hash, hence its entry, hence its bucket
  have hinj : Function.Injective fun p => (entry p).handle := by
    intro p q hpq
    obtain ⟨i, hi, key, hkey, hb⟩ := (h.entries _).mp ⟨p, hentry p⟩
    obtain ⟨j, hj, key', hkey', hb'⟩ := (h.entries _).mp ⟨q, hentry q⟩
    have hij : i = j := by
      have : (entry p).handle = (entry q).handle := hpq
      rwa [hb, hb'] at this
    subst hij
    rw [hkey] at hkey'
    cases hkey'
    exact h.distinct p q (entry p) (hentry p) (by rw [hb, ← hb']; exact hentry q)
  have hcard : Fintype.card (ZMod n) ≤ live.toFinset.card := by
    rw [← Finset.card_univ]
    exact Finset.card_le_card_of_injOn _ (fun p _ => by simpa using hlive p) hinj.injOn
  rw [ZMod.card, List.toFinset_card_of_nodup h.nodup] at hcard
  have := h.room
  omega

/-! ## The operations -/

section Operations

variable [DecidableEq K] {ix : Index K} {slots : Array (Slot K ρ)} {live : List ℕ} {key : K}
  {i : ℕ}

/-- The bucket a matching probe stops at belongs to the slot of the key. -/
theorem Sound.of_match {b : Bucket} {p : ZMod n} (h : Sound ix slots n live)
    (hp : tab n ix.buckets p = some b) (hm : Match (ix.hashOf key) key slots b) :
    b.handle ∈ live ∧ keyOf slots b.handle = some key ∧ b = ⟨ix.hashOf key, b.handle⟩ := by
  obtain ⟨i, hi, key', hkey', hb⟩ := (h.entries b).mp ⟨p, hp⟩
  have hk := holds_iff.mp hm.2
  rw [hb] at hk ⊢
  rw [hkey'] at hk
  cases hk
  exact ⟨hi, hkey', rfl⟩

theorem Sound.probe_none (h : Sound ix slots n live)
    (hk : ∀ j ∈ live, keyOf slots j ≠ some key) : probe ix (ix.hashOf key) key slots = none := by
  by_contra hc
  obtain ⟨r, hr⟩ := Option.ne_none_iff_exists'.mp hc
  obtain ⟨-, b, hb, hm⟩ := probeFrom_match h.shape (h.shape.and_mask_lt _) hr
  obtain ⟨h1, h2, -⟩ := h.of_match hb hm
  exact hk _ h1 h2

theorem Sound.probe_some (h : Sound ix slots n live) (hi : i ∈ live)
    (hk : keyOf slots i = some key) :
    ∃ r, r < n ∧ probe ix (ix.hashOf key) key slots = some r ∧
      tab n ix.buckets (r : ZMod n) = some ⟨ix.hashOf key, i⟩ := by
  obtain ⟨p, hp⟩ := (h.entries ⟨ix.hashOf key, i⟩).mpr ⟨i, hi, key, hk, rfl⟩
  have hhome : ((ix.hashOf key &&& ix.mask : ℕ) : ZMod n) = home n ⟨ix.hashOf key, i⟩ :=
    h.shape.cast_and_mask _
  have hsome : (probe ix (ix.hashOf key) key slots).isSome :=
    probeFrom_isSome h.shape (h.shape.and_mask_lt _) hp ⟨rfl, holds_iff.mpr hk⟩
      (by rw [hhome]; exact h.probed p _ hp) (by rw [h.shape.size]; exact gap_lt _ _)
  obtain ⟨r, hr⟩ := Option.isSome_iff_exists.mp hsome
  obtain ⟨hrn, b, hb, hm⟩ := probeFrom_match h.shape (h.shape.and_mask_lt _) hr
  obtain ⟨h1, h2, h3⟩ := h.of_match hb hm
  have : b.handle = i := h.inj _ h1 _ hi (by rw [h2, hk])
  rw [this] at h3
  exact ⟨r, hrn, hr, by rw [hb, h3]⟩

/-- **`get` finds the slot of a live key.** -/
theorem Sound.get_some (h : Sound ix slots n live) (hi : i ∈ live)
    (hk : keyOf slots i = some key) : ix.get key slots = some i := by
  obtain ⟨r, hrn, hr, ht⟩ := h.probe_some hi hk
  have hb := (tab_some ht).1
  rw [val_cast hrn] at hb
  simp [Index.get, hr, hb]

/-- **`get` finds nothing for any other key.** -/
theorem Sound.get_none (h : Sound ix slots n live)
    (hk : ∀ j ∈ live, keyOf slots j ≠ some key) : ix.get key slots = none := by
  simp [Index.get, h.probe_none hk]

theorem Sound.get_eq_some_iff (h : Sound ix slots n live) :
    ix.get key slots = some i ↔ i ∈ live ∧ keyOf slots i = some key := by
  constructor
  · intro hg
    by_cases hex : ∃ j ∈ live, keyOf slots j = some key
    · obtain ⟨j, hj, hk⟩ := hex
      rw [h.get_some hj hk] at hg
      cases hg
      exact ⟨hj, hk⟩
    · push Not at hex
      rw [h.get_none hex] at hg
      cases hg
  · rintro ⟨hi, hk⟩
    exact h.get_some hi hk

@[simp] theorem hashOf_congr {ix ix' : Index K} (h : ix'.hasher = ix.hasher) (k : K) :
    ix'.hashOf k = ix.hashOf k := by
  simp [hashOf, h]

/-- A free bucket that takes the slot's entry adds that one. -/
theorem Sound.entries_fill (h : Sound ix slots n live) (hk : keyOf slots i = some key)
    {f : ZMod n} (hf : tab n ix.buckets f = none) (b : Bucket) :
    (∃ p, Function.update (tab n ix.buckets) f (some ⟨ix.hashOf key, i⟩) p = some b) ↔
      ∃ j ∈ i :: live, ∃ k, keyOf slots j = some k ∧ b = ⟨ix.hashOf k, j⟩ := by
  constructor
  · rintro ⟨p, hpb⟩
    rw [Function.update_apply] at hpb
    split at hpb
    · cases hpb
      exact ⟨i, by simp, key, hk, rfl⟩
    · obtain ⟨j, hj, k, hkj, hb⟩ := (h.entries b).mp ⟨p, hpb⟩
      exact ⟨j, by simp [hj], k, hkj, hb⟩
  · rintro ⟨j, hj, k, hkj, hb⟩
    rcases List.mem_cons.mp hj with hji | hj
    · subst hji
      rw [hk] at hkj
      cases hkj
      exact ⟨f, by rw [Function.update_self, hb]⟩
    · obtain ⟨p, hpb⟩ := (h.entries b).mpr ⟨j, hj, k, hkj, hb⟩
      have hpf : p ≠ f := by rintro rfl; rw [hf] at hpb; cases hpb
      exact ⟨p, by rw [Function.update_of_ne hpf]; exact hpb⟩

/-- A slot with a new key has a key of its own. -/
theorem Sound.inj_cons (h : Sound ix slots n live) (hk : keyOf slots i = some key)
    (hnew : ∀ j ∈ live, keyOf slots j ≠ some key) :
    ∀ a ∈ i :: live, ∀ b ∈ i :: live, keyOf slots a = keyOf slots b → a = b := by
  intro a ha b hb hab
  rcases List.mem_cons.mp ha with hai | ha <;> rcases List.mem_cons.mp hb with hbi | hb
  · rw [hai, hbi]
  · exact absurd (by rw [← hab, hai, hk]) (hnew b hb)
  · exact absurd (by rw [hab, hbi, hk]) (hnew a ha)
  · exact h.inj a ha b hb hab

/-- **`insert` of a new key's slot adds it to the map.** -/
theorem Sound.insert (h : Sound ix slots n live) (hi : i ∉ live) (hh : i < Bucket.empty)
    (hk : keyOf slots i = some key) (hnew : ∀ j ∈ live, keyOf slots j ≠ some key)
    (hroom : live.length + 1 < n) : Sound (ix.insert key i slots) slots n (i :: live) := by
  obtain ⟨z, hz⟩ := h.exists_free
  have hsize := h.shape.size
  have hp := h.probe_none hnew
  obtain ⟨h1, h2, h3⟩ := freeFrom_spec ix.buckets.size h.shape
    (h.shape.and_mask_lt (ix.hashOf key)) hz (by rw [hsize]; exact gap_lt _ _)
  set f := freeFrom ix ix.buckets.size (ix.hashOf key &&& ix.mask) with hf
  have heq : ix.insert key i slots
      = { ix with
          buckets := ix.buckets.setIfInBounds f { hash := ix.hashOf key, handle := i }
          len := ix.len + 1 } := by
    simp only [Index.insert, hp, ← hf]
  have hfree : ({ hash := ix.hashOf key, handle := i } : Bucket).isFree = false := by
    simp [Bucket.isFree]; omega
  have htab : tab n (ix.insert key i slots).buckets
      = Function.update (tab n ix.buckets) (f : ZMod n) (some ⟨ix.hashOf key, i⟩) := by
    rw [heq, tab_set h1 hsize, hfree]
    rfl
  have hhash : ∀ k, (ix.insert key i slots).hashOf k = ix.hashOf k :=
    fun k => hashOf_congr (by rw [heq]) k
  have hfresh : ∀ q, tab n ix.buckets q ≠ some ⟨ix.hashOf key, i⟩ := by
    intro q hq
    obtain ⟨j, hj, _, -, hb⟩ := (h.entries _).mp ⟨q, hq⟩
    have hij : i = j := congrArg Bucket.handle hb
    exact hi (hij ▸ hj)
  refine
    { shape := ⟨by rw [heq]; exact h.shape.mask, by rw [heq]; simpa using hsize, h.shape.pow⟩
      probed := ?_, distinct := ?_, entries := ?_
      len := by rw [heq]; simp [h.len]
      room := by simpa using hroom
      nodup := List.nodup_cons.mpr ⟨hi, h.nodup⟩
      keys := ?_, inj := h.inj_cons hk hnew, handle := ?_ }
  · rw [htab]
    refine h.probed.fill h2 ?_
    rw [h.shape.cast_and_mask] at h3
    exact h3
  · rw [htab]
    exact h.distinct.fill hfresh
  · intro b
    rw [htab]
    simp only [hhash]
    exact h.entries_fill hk h2 b
  · intro j hj
    rcases List.mem_cons.mp hj with hji | hj
    · exact ⟨key, hji ▸ hk⟩
    · exact h.keys j hj
  · intro j hj
    rcases List.mem_cons.mp hj with hji | hj
    · omega
    · exact h.handle j hj

/-- Only one bucket holds the slot's number. -/
theorem Sound.handle_ne (h : Sound ix slots n live) (hk : keyOf slots i = some key) {r q : ZMod n}
    (ht : tab n ix.buckets r = some ⟨ix.hashOf key, i⟩) (hqr : q ≠ r) {b : Bucket}
    (hq : tab n ix.buckets q = some b) : b.handle ≠ i := by
  intro hbi
  obtain ⟨x, _, k, hkx, hb⟩ := (h.entries b).mp ⟨q, hq⟩
  have hxi : x = i := by rw [← hbi, hb]
  rw [hxi, hk] at hkx
  cases hkx
  exact hqr (h.distinct q _ b hq (by rw [hb, hxi]; exact ht))

/-- A bucket that is given another slot of its key exchanges that entry. -/
theorem Sound.entries_replace (h : Sound ix slots n live) (hk : keyOf slots i = some key) {j : ℕ}
    (hj : keyOf slots j = some key) {r : ZMod n}
    (ht : tab n ix.buckets r = some ⟨ix.hashOf key, i⟩) (b : Bucket) :
    (∃ p, Function.update (tab n ix.buckets) r (some ⟨ix.hashOf key, j⟩) p = some b) ↔
      ∃ x ∈ j :: live.erase i, ∃ k, keyOf slots x = some k ∧ b = ⟨ix.hashOf k, x⟩ := by
  constructor
  · rintro ⟨p, hp⟩
    rw [Function.update_apply] at hp
    split at hp
    · cases hp
      exact ⟨j, by simp, key, hj, rfl⟩
    · next hpr =>
      obtain ⟨x, hx, k, hkx, hb⟩ := (h.entries b).mp ⟨p, hp⟩
      have hxi : x ≠ i := by have := h.handle_ne hk ht hpr hp; rwa [hb] at this
      exact ⟨x, List.mem_cons_of_mem _ (h.nodup.mem_erase_iff.mpr ⟨hxi, hx⟩), k, hkx, hb⟩
  · rintro ⟨x, hx, k, hkx, hb⟩
    rcases List.mem_cons.mp hx with hxj | hx
    · rw [hxj, hj] at hkx
      cases hkx
      exact ⟨r, by rw [Function.update_self, hb, hxj]⟩
    · obtain ⟨hxi, hx⟩ := h.nodup.mem_erase_iff.mp hx
      obtain ⟨p, hp⟩ := (h.entries b).mpr ⟨x, hx, k, hkx, hb⟩
      have hpr : p ≠ r := by
        rintro rfl
        rw [ht, hb] at hp
        exact hxi (congrArg Bucket.handle (Option.some.inj hp)).symm
      exact ⟨p, by rw [Function.update_of_ne hpr]; exact hp⟩

/-- **`insert` of a live key's second slot puts it in the first one's place.** -/
theorem Sound.replace (h : Sound ix slots n live) (hi : i ∈ live) (hk : keyOf slots i = some key)
    {j : ℕ} (hj : keyOf slots j = some key) (hh : j < Bucket.empty) :
    Sound (ix.insert key j slots) slots n (j :: live.erase i) := by
  have hsize := h.shape.size
  obtain ⟨r, hrn, hr, ht⟩ := h.probe_some hi hk
  have heq : ix.insert key j slots
      = { ix with buckets := ix.buckets.modify r fun b => { b with handle := j } } := by
    simp only [Index.insert, hr]
  have hwrite : ix.buckets.modify r (fun b => { b with handle := j })
      = ix.buckets.setIfInBounds r ⟨ix.hashOf key, j⟩ := by
    have hb := (tab_some ht).1
    rw [val_cast hrn] at hb
    apply Array.ext_getElem?
    intro p
    rw [Array.getElem?_modify, Array.getElem?_setIfInBounds]
    by_cases hrp : r = p
    · subst hrp
      rw [if_pos rfl, if_pos rfl, if_pos (by omega), hb]
      rfl
    · rw [if_neg hrp, if_neg hrp]
  have hfree : ({ hash := ix.hashOf key, handle := j } : Bucket).isFree = false := by
    simp [Bucket.isFree]; omega
  have htab : tab n (ix.insert key j slots).buckets
      = Function.update (tab n ix.buckets) (r : ZMod n) (some ⟨ix.hashOf key, j⟩) := by
    rw [heq, hwrite, tab_set hrn hsize, hfree]
    rfl
  have hhash : ∀ k, (ix.insert key j slots).hashOf k = ix.hashOf k :=
    fun k => hashOf_congr (by rw [heq]) k
  have hsub : ∀ x, x ∈ live.erase i ↔ x ≠ i ∧ x ∈ live := fun x => h.nodup.mem_erase_iff
  -- the key has one live slot, so `j` is new unless it is `i`
  have hji : j ∈ live → j = i := fun hjl => h.inj j hjl i hi (by rw [hj, hk])
  have hlen : (j :: live.erase i).length = live.length := by
    rw [List.length_cons, List.length_erase_of_mem hi]
    have := List.length_pos_of_mem hi
    omega
  refine
    { shape := ⟨by rw [heq]; exact h.shape.mask, by rw [heq]; simpa using hsize, h.shape.pow⟩
      probed := by rw [htab]; exact h.probed.replace ht rfl
      distinct := ?_, entries := ?_
      len := by rw [heq, hlen]; exact h.len
      room := by rw [hlen]; exact h.room
      nodup := List.nodup_cons.mpr
        ⟨fun hm => ((hsub j).mp hm).1 (hji ((hsub j).mp hm).2), h.nodup.erase i⟩
      keys := ?_, inj := ?_, handle := ?_ }
  · rw [htab]
    refine h.distinct.replace fun q hqr hq => ?_
    obtain ⟨x, hx, _, _, hb⟩ := (h.entries _).mp ⟨q, hq⟩
    have hjx : j = x := congrArg Bucket.handle hb
    exact h.handle_ne hk ht hqr hq (hji (hjx ▸ hx))
  · intro b
    rw [htab]
    simp only [hhash]
    exact h.entries_replace hk hj ht b
  · intro x hx
    rcases List.mem_cons.mp hx with hxj | hx
    · exact ⟨key, hxj ▸ hj⟩
    · exact h.keys x ((hsub x).mp hx).2
  · have hsecond : ∀ x ∈ live.erase i, keyOf slots x ≠ some key := fun x hx hkx =>
      ((hsub x).mp hx).1 (h.inj x ((hsub x).mp hx).2 i hi (by rw [hkx, hk]))
    intro a ha b hb hab
    rcases List.mem_cons.mp ha with hai | ha <;> rcases List.mem_cons.mp hb with hbi | hb
    · rw [hai, hbi]
    · exact absurd (by rw [← hab, hai, hj]) (hsecond b hb)
    · exact absurd (by rw [hab, hbi, hj]) (hsecond a ha)
    · exact h.inj a ((hsub a).mp ha).2 b ((hsub b).mp hb).2 hab
  · intro x hx
    rcases List.mem_cons.mp hx with hxj | hx
    · omega
    · exact h.handle x ((hsub x).mp hx).2

/-- **`remove` of a live key deletes its slot from the map and nothing else.** -/
theorem Sound.remove (h : Sound ix slots n live) (hi : i ∈ live)
    (hk : keyOf slots i = some key) : Sound (ix.remove key slots) slots n (live.erase i) := by
  obtain ⟨z, hz⟩ := h.exists_free
  have hsize := h.shape.size
  obtain ⟨r, hrn, hr, ht⟩ := h.probe_some hi hk
  let cleared : Index K := { ix.freeBucket r with len := ix.len - 1 }
  have heq : ix.remove key slots
      = shiftBack cleared ix.buckets.size r ((r + 1) &&& ix.mask) := by
    simp only [Index.remove, hr]
    rfl
  have hshape : Shape cleared n :=
    ⟨h.shape.mask, by simpa [cleared] using hsize, h.shape.pow⟩
  have htab : tab n cleared.buckets = Function.update (tab n ix.buckets) (r : ZMod n) none :=
    tab_freeBucket hrn hsize
  have hzr : z ≠ (r : ZMod n) := by rintro rfl; rw [hz] at ht; cases ht
  have hcast : (((r + 1) &&& ix.mask : ℕ) : ZMod n) = (r : ZMod n) + ((1 : ℕ) : ZMod n) := by
    rw [h.shape.cast_and_mask]; push_cast; rfl
  obtain ⟨h1, h2, h3, h4⟩ := shiftBack_spec ix.buckets.size (g := 1) (z := z) hshape
    hrn (h.shape.and_mask_lt (r + 1)) hcast (by rw [htab]; exact h.probed.clear _)
    (by rw [htab]; exact h.distinct.clear _) (by rw [htab, Function.update_of_ne hzr]; exact hz)
    hzr (by rw [hsize]; exact gap_lt _ _)
  rw [← heq] at h1 h2 h3 h4
  have hhash : ∀ k, (ix.remove key slots).hashOf k = ix.hashOf k :=
    fun k => hashOf_congr h1.hasher k
  have hlen : (live.erase i).length + 1 = live.length := by
    rw [List.length_erase_of_mem hi]
    have := List.length_pos_of_mem hi
    omega
  have hsub : ∀ j, j ∈ live.erase i ↔ j ≠ i ∧ j ∈ live := fun j => h.nodup.mem_erase_iff
  refine
    { shape := h1.shape hshape, probed := h2, distinct := h3, entries := ?_
      len := by rw [h1.len]; simp [cleared, h.len]; omega
      room := by have := h.room; omega
      nodup := h.nodup.erase i
      keys := fun j hj => h.keys j ((hsub j).mp hj).2
      inj := fun a ha b hb => h.inj a ((hsub a).mp ha).2 b ((hsub b).mp hb).2
      handle := fun j hj => h.handle j ((hsub j).mp hj).2 }
  intro b
  rw [h4 b, htab]
  simp only [hhash, hsub]
  constructor
  · rintro ⟨p, hp⟩
    have hpr : p ≠ (r : ZMod n) := by rintro rfl; rw [Function.update_self] at hp; cases hp
    rw [Function.update_of_ne hpr] at hp
    obtain ⟨j, hj, k, hkj, hb⟩ := (h.entries b).mp ⟨p, hp⟩
    refine ⟨j, ⟨?_, hj⟩, k, hkj, hb⟩
    rintro rfl
    rw [hk] at hkj
    cases hkj
    exact hpr (h.distinct p _ b hp (by rw [hb]; exact ht))
  · rintro ⟨j, ⟨hji, hj⟩, k, hkj, hb⟩
    obtain ⟨p, hp⟩ := (h.entries b).mpr ⟨j, hj, k, hkj, hb⟩
    have hpr : p ≠ (r : ZMod n) := by
      rintro rfl
      rw [ht] at hp
      rw [hb] at hp
      exact hji (congrArg Bucket.handle (Option.some.inj hp)).symm
    exact ⟨p, by rw [Function.update_of_ne hpr]; exact hp⟩

end Operations

/-! ## The empty index -/

/-- A fresh index is the empty map. Its bucket count is a power of two, at least four times
the capacity. -/
theorem withCapacity_sound {capacity : ℕ} {hasher : K → UInt64} {ix : Index K}
    (h : withCapacity capacity hasher = some ix) :
    ∃ n, ∃ _ : NeZero n, 4 * max capacity 1 ≤ n ∧ n ≤ 4294967296 ∧ ix.hasher = hasher ∧
      ∀ slots : Array (Slot K ρ), Sound ix slots n [] := by
  unfold withCapacity at h
  dsimp only at h
  split at h
  case isFalse => cases h
  case isTrue hn =>
    cases h
    set m := min (max capacity 1 * 4) 18446744073709551615 with hm
    have hpow : nextPowerOfTwo m = 2 ^ Nat.clog 2 m := rfl
    have hle : m ≤ nextPowerOfTwo m := Nat.le_pow_clog (by norm_num) m
    have hpos : 0 < nextPowerOfTwo m := by rw [hpow]; exact Nat.two_pow_pos _
    have hmcap : m = 4 * max capacity 1 := by omega
    have hclog : Nat.clog 2 m ≤ 32 := by
      by_contra hlt
      have : (2 : ℕ) ^ 33 ≤ 2 ^ Nat.clog 2 m := Nat.pow_le_pow_right (by norm_num) (by omega)
      omega
    refine ⟨nextPowerOfTwo m, ⟨hpos.ne'⟩, by omega, by omega, rfl, fun slots => ?_⟩
    have : NeZero (nextPowerOfTwo m) := ⟨hpos.ne'⟩
    have htab : tab (nextPowerOfTwo m)
        (Array.replicate (nextPowerOfTwo m) { hash := 0, handle := Bucket.empty })
        = fun _ => none := by
      funext p
      unfold tab
      simp [Bucket.isFree, ZMod.val_lt p]
    exact
      { shape := ⟨by simp; omega, by simp, Nat.clog 2 m, hclog, rfl⟩
        probed := by rw [htab]; exact probed_empty _
        distinct := by rw [htab]; exact distinct_empty
        entries := by intro b; rw [htab]; simp
        len := rfl
        room := by simpa using hpos
        nodup := List.nodup_nil
        keys := by simp
        inj := by simp
        handle := by simp }

end RustyTime.Index
