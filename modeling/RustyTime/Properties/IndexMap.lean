import RustyTime.Spec.IndexMap

/-!
# The index over its calls

Whatever the hash values, the calls of an owner that keeps its promise leave the index the map
they should build, and every loop the index runs ends.

* `probeFrom_ends`, `freeFrom_ends`, `shiftBack_ends` — a loop ends before its bound when some
  bucket is free
* `Owned.Held.step` — the invariant of the calls
* `Owned.run_represents` — after any calls the index is the map
-/

namespace RustyTime.Index

open Infra.Probe Infra.Run

set_option linter.unusedSectionVars false

variable {K ρ : Type} [DecidableEq K] {n : ℕ} [NeZero n]

/-! ## The loops end -/

section Loops

variable {ix : Index K} {slots : Array (Slot K ρ)} {key : K} {hash : ℕ}

/-- A step of any walk brings it nearer to a free bucket. -/
theorem gap_next {i : ℕ} {z : ZMod n} (hS : Shape ix n) (hzi : z ≠ (i : ZMod n)) :
    gap (i : ZMod n) z = gap (((i + 1) &&& ix.mask : ℕ) : ZMod n) z + 1 := by
  rw [hS.cast_and_mask, Nat.cast_add, Nat.cast_one]
  exact gap_succ hzi

theorem probeFrom_ends (fuel : ℕ) {i : ℕ} {z : ZMod n} (hS : Shape ix n) (hi : i < n)
    (hz : tab n ix.buckets z = none) (hfuel : gap (i : ZMod n) z < fuel) :
    ProbeEnds ix hash key slots i (probeFrom ix hash key slots fuel i) := by
  induction fuel generalizing i with
  | zero => omega
  | succ fuel ih =>
    obtain ⟨b, hb, ht⟩ := tab_cast (n := n) hi hS.size
    rw [probeFrom, hb]
    dsimp only
    by_cases hf : b.isFree
    · rw [if_pos hf]
      exact .free hb hf
    · rw [if_neg hf] at ht ⊢
      have hf : b.isFree = false := by simpa using hf
      by_cases hm : b.hash = hash ∧ holds slots b.handle key = true
      · rw [if_pos hm]
        exact .found hb hf hm
      · rw [if_neg hm]
        have hzi : z ≠ (i : ZMod n) := by rintro rfl; rw [hz] at ht; cases ht
        have hgap := gap_next hS hzi
        exact .next hb hf hm (ih (hS.and_mask_lt _) (by omega))

theorem freeFrom_ends (fuel : ℕ) {i : ℕ} {z : ZMod n} (hS : Shape ix n) (hi : i < n)
    (hz : tab n ix.buckets z = none) (hfuel : gap (i : ZMod n) z < fuel) :
    WalkEnds ix i (freeFrom ix fuel i) := by
  induction fuel generalizing i with
  | zero => omega
  | succ fuel ih =>
    obtain ⟨b, hb, ht⟩ := tab_cast (n := n) hi hS.size
    rw [freeFrom, hb]
    dsimp only
    by_cases hf : b.isFree
    · rw [if_pos hf]
      exact .free hb hf
    · rw [if_neg hf] at ht ⊢
      have hzi : z ≠ (i : ZMod n) := by rintro rfl; rw [hz] at ht; cases ht
      have hgap := gap_next hS hzi
      exact .next hb (by simpa using hf) (ih (hS.and_mask_lt _) (by omega))

/-- The walk leaves a free bucket other than its hole free until it arrives there. -/
theorem shiftBack_ends (fuel : ℕ) {hole i : ℕ} {z : ZMod n} :
    ∀ {ix : Index K}, Shape ix n → hole < n → i < n → tab n ix.buckets z = none →
      z ≠ (hole : ZMod n) → gap (i : ZMod n) z < fuel →
      ShiftEnds ix hole i (shiftBack ix fuel hole i) := by
  induction fuel generalizing hole i with
  | zero => intro ix _ _ _ _ _ hfuel; omega
  | succ fuel ih =>
    intro ix hS hh hi hz hzh hfuel
    obtain ⟨b, hb, ht⟩ := tab_cast (n := n) hi hS.size
    rw [shiftBack, hb]
    dsimp only
    by_cases hf : b.isFree
    · rw [if_pos hf]
      exact .free hb hf
    · rw [if_neg hf] at ht ⊢
      have hzi : z ≠ (i : ZMod n) := by rintro rfl; rw [hz] at ht; cases ht
      have hgap := gap_next hS hzi
      by_cases htest : ix.maskedSub hole (b.hash &&& ix.mask)
          < ix.maskedSub i (b.hash &&& ix.mask)
      · rw [if_pos htest]
        let moved : Index K := { ix with buckets := ix.buckets.setIfInBounds hole b }
        have hsize : moved.buckets.size = n := by simp [moved, hS.size]
        have hS' : Shape (moved.freeBucket i) n :=
          ⟨hS.mask, by rw [size_freeBucket, hsize], hS.pow⟩
        have hz' : tab n (moved.freeBucket i).buckets z = none := by
          rw [tab_freeBucket hi hsize, Function.update_of_ne hzi, tab_set hh hS.size,
            Function.update_of_ne hzh, hz]
        exact .move hb (by simpa using hf) htest
          (ih hS' hi (hS.and_mask_lt _) hz' hzi (by omega))
      · rw [if_neg htest]
        exact .keep hb (by simpa using hf) htest
          (ih hS hh (hS.and_mask_lt _) hz hzh (by omega))

end Loops

/-! ## Reading a sound index -/

section Reading

variable {ix : Index K} {slots : Array (Slot K ρ)} {live : List ℕ} {key : K}

/-- The buckets on an entry's probe path, as the array has them. -/
theorem Sound.reachable (h : Sound ix slots n live) : ix.Reachable := by
  intro p b hb hf e he
  have hpn : p < n := by
    have := (Array.getElem?_eq_some_iff.mp hb).1
    rw [h.shape.size] at this
    exact this
  have htab : tab n ix.buckets (p : ZMod n) = some b := by
    obtain ⟨c, hc, ht⟩ := tab_cast (n := n) hpn h.shape.size
    rw [hb] at hc
    cases hc
    rw [ht, if_neg (by rw [hf]; exact Bool.false_ne_true)]
  have hhome : ((b.hash &&& ix.mask : ℕ) : ZMod n) = home n b := h.shape.cast_and_mask _
  rw [h.shape.maskedSub (h.shape.and_mask_lt _), hhome] at he
  have hcovered := h.probed p b htab e he
  obtain ⟨c, hc, ht⟩ := tab_cast (n := n)
    (h.shape.and_mask_lt ((b.hash &&& ix.mask) + e)) h.shape.size
  have hplace : ((((b.hash &&& ix.mask) + e) &&& ix.mask : ℕ) : ZMod n) = home n b + e := by
    rw [h.shape.cast_and_mask, Nat.cast_add, hhome]
  rw [hplace] at ht
  refine ⟨c, hc, ?_⟩
  cases hcf : c.isFree with
  | false => rfl
  | true =>
    rw [hcf, if_pos rfl] at ht
    exact absurd ht hcovered

theorem Sound.free (h : Sound ix slots n live) : ∃ b ∈ ix.buckets, b.isFree = true := by
  obtain ⟨z, hz⟩ := h.exists_free
  obtain ⟨b, hb, ht⟩ := tab_cast (n := n) (ZMod.val_lt z) h.shape.size
  rw [ZMod.natCast_zmod_val, hz] at ht
  refine ⟨b, Array.mem_of_getElem? hb, ?_⟩
  by_contra hf
  rw [if_neg hf] at ht
  cases ht

/-- What `probe` finds is the live slot that holds the key. -/
theorem Sound.probe_iff (h : Sound ix slots n live) {i : ℕ} :
    (∃ r, ix.probe (ix.hashOf key) key slots = some r ∧
      ix.buckets[r]?.map Bucket.handle = some i) ↔ i ∈ live ∧ keyOf slots i = some key := by
  rw [← h.get_eq_some_iff]
  unfold Index.get
  cases ix.probe (ix.hashOf key) key slots with
  | none => simp
  | some r => simp

theorem Sound.probeEnds (h : Sound ix slots n live) (key : K) :
    ProbeEnds ix (ix.hashOf key) key slots (ix.hashOf key &&& ix.mask)
      (ix.probe (ix.hashOf key) key slots) := by
  obtain ⟨z, hz⟩ := h.exists_free
  exact probeFrom_ends _ h.shape (h.shape.and_mask_lt _) hz
    (by rw [h.shape.size]; exact gap_lt _ _)

theorem Sound.insertEnds (h : Sound ix slots n live) (handle : ℕ)
    (hnone : ix.probe (ix.hashOf key) key slots = none) :
    ∃ i, WalkEnds ix (ix.hashOf key &&& ix.mask) i ∧
      ix.insert key handle slots =
        { ix with
          buckets := ix.buckets.setIfInBounds i ⟨ix.hashOf key, handle⟩
          len := ix.len + 1 } := by
  obtain ⟨z, hz⟩ := h.exists_free
  refine ⟨freeFrom ix ix.buckets.size (ix.hashOf key &&& ix.mask), ?_, ?_⟩
  · exact freeFrom_ends _ h.shape (h.shape.and_mask_lt _) hz
      (by rw [h.shape.size]; exact gap_lt _ _)
  · simp only [Index.insert, hnone]

theorem Sound.removeEnds (h : Sound ix slots n live) {hole : ℕ}
    (hsome : ix.probe (ix.hashOf key) key slots = some hole) :
    ShiftEnds { ix.freeBucket hole with len := ix.len - 1 } hole ((hole + 1) &&& ix.mask)
      (ix.remove key slots) := by
  obtain ⟨z, hz⟩ := h.exists_free
  obtain ⟨hhole, b, hb, -⟩ := probeFrom_match h.shape (h.shape.and_mask_lt _) hsome
  have hzh : z ≠ (hole : ZMod n) := by rintro rfl; rw [hz] at hb; cases hb
  have hS : Shape ({ ix.freeBucket hole with len := ix.len - 1 } : Index K) n :=
    ⟨h.shape.mask, by simpa using h.shape.size, h.shape.pow⟩
  have hz' : tab n (ix.freeBucket hole).buckets z = none := by
    rw [tab_freeBucket hhole h.shape.size, Function.update_of_ne hzh, hz]
  have heq : ix.remove key slots
      = shiftBack { ix.freeBucket hole with len := ix.len - 1 } ix.buckets.size hole
        ((hole + 1) &&& ix.mask) := by
    simp only [Index.remove, hsome]
  rw [heq]
  exact shiftBack_ends _ hS hhole (h.shape.and_mask_lt _) hz' hzh
    (by rw [h.shape.size]; exact gap_lt _ _)

end Reading

/-! ## The invariant of the calls -/

namespace Owned

/-- The index is sound over the live handles, and their slots hold the live keys. -/
structure Held (n capacity : ℕ) (s : Owned K ρ) : Prop where
  sound : Sound s.index s.slots n (s.live.map Prod.snd)
  slots : ∀ entry ∈ s.live, keyOf s.slots entry.2 = some entry.1
  keys : (s.live.map Prod.fst).Nodup
  bound : s.live.length ≤ capacity

variable {s : Owned K ρ} {capacity : ℕ} {key : K}

theorem Held.mem_iff (h : s.Held n capacity) {handle : ℕ} :
    (key, handle) ∈ s.live ↔
      handle ∈ s.live.map Prod.snd ∧ keyOf s.slots handle = some key := by
  constructor
  · intro hm
    exact ⟨List.mem_map.mpr ⟨_, hm, rfl⟩, h.slots _ hm⟩
  · rintro ⟨hm, hk⟩
    obtain ⟨entry, hentry, rfl⟩ := List.mem_map.mp hm
    rw [h.slots entry hentry] at hk
    cases hk
    exact hentry

theorem mem_without {live : List (K × ℕ)} {entry : K × ℕ} :
    entry ∈ without live key ↔ entry.1 ≠ key ∧ entry ∈ live := by
  unfold without
  rw [List.mem_filter, decide_eq_true_iff, and_comm]

theorem without_sublist (live : List (K × ℕ)) (key : K) : (without live key).Sublist live :=
  List.filter_sublist

/-- Without a live key the map lacks that key's handle. -/
theorem Held.without_perm (h : s.Held n capacity) {i : ℕ} (hm : (key, i) ∈ s.live) :
    ((without s.live key).map Prod.snd).Perm ((s.live.map Prod.snd).erase i) := by
  have hnodup := h.sound.nodup
  refine (List.perm_ext_iff_of_nodup (hnodup.sublist ((without_sublist _ _).map _))
    (hnodup.erase i)).mpr fun x => ?_
  rw [hnodup.mem_erase_iff, List.mem_map, List.mem_map]
  constructor
  · rintro ⟨⟨key', x'⟩, hx, rfl⟩
    obtain ⟨hne, hx⟩ := mem_without.mp hx
    refine ⟨fun hxi => hne ?_, ⟨_, hx, rfl⟩⟩
    have hk := h.slots _ hx
    rw [show x' = i from hxi, h.slots _ hm] at hk
    exact (Option.some.inj hk).symm
  · rintro ⟨hne, ⟨key', x'⟩, hx, rfl⟩
    refine ⟨(key', x'), mem_without.mpr ⟨fun hkk => hne ?_, hx⟩, rfl⟩
    have hk := h.slots _ hx
    rw [show key' = key from hkk, ← h.slots _ hm] at hk
    exact h.sound.inj _ (List.mem_map.mpr ⟨_, hx, rfl⟩) _ (List.mem_map.mpr ⟨_, hm, rfl⟩) hk

theorem without_eq_self {live : List (K × ℕ)} (h : ∀ i, (key, i) ∉ live) :
    without live key = live := by
  refine List.filter_eq_self.mpr fun entry hm => decide_eq_true ?_
  rintro rfl
  exact h _ hm

theorem Held.not_slot (h : s.Held n capacity) (hnew : ∀ i, (key, i) ∉ s.live) :
    ∀ j ∈ s.live.map Prod.snd, keyOf s.slots j ≠ some key := fun j hj hk =>
  hnew j (h.mem_iff.mpr ⟨hj, hk⟩)

theorem Held.nodup_without (h : s.Held n capacity) (key : K) :
    ((without s.live key).map Prod.fst).Nodup :=
  h.keys.sublist ((without_sublist _ _).map _)

theorem Held.insert (h : s.Held n capacity) (hn : capacity < n) {handle : ℕ}
    (hallowed : s.Allowed capacity (.insert key handle)) :
    (s.step (.insert key handle)).Held n capacity := by
  obtain ⟨hk, hhandle, hroom⟩ := hallowed
  have hkeys : (((key, handle) :: without s.live key).map Prod.fst).Nodup := by
    rw [List.map_cons, List.nodup_cons]
    refine ⟨fun hm => ?_, h.nodup_without key⟩
    obtain ⟨entry, hm, he⟩ := List.mem_map.mp hm
    exact (mem_without.mp hm).1 he
  have hslots : ∀ entry ∈ (key, handle) :: without s.live key,
      keyOf s.slots entry.2 = some entry.1 := by
    intro entry hm
    rcases List.mem_cons.mp hm with rfl | hm
    · exact hk
    · exact h.slots _ (mem_without.mp hm).2
  refine ⟨?_, hslots, hkeys, hroom⟩
  by_cases hex : ∃ i, (key, i) ∈ s.live
  · obtain ⟨i, hm⟩ := hex
    obtain ⟨hi, hki⟩ := h.mem_iff.mp hm
    exact (h.sound.replace hi hki hk hhandle).perm ((h.without_perm hm).cons handle)
  · push Not at hex
    have hnew := h.not_slot hex
    have hlive : ((key, handle) :: without s.live key).map Prod.snd
        = handle :: s.live.map Prod.snd := by
      rw [List.map_cons, without_eq_self hex]
    rw [without_eq_self hex] at hroom
    show Sound _ _ n (((key, handle) :: without s.live key).map Prod.snd)
    rw [hlive]
    exact h.sound.insert (fun hm => hnew handle hm hk) hhandle hk hnew
      (by rw [List.length_map]; omega)

theorem Held.remove (h : s.Held n capacity) (key : K) :
    (s.step (.remove key)).Held n capacity := by
  refine ⟨?_, fun entry hm => h.slots _ (mem_without.mp hm).2, h.nodup_without key,
    (without_sublist _ _).length_le.trans h.bound⟩
  show Sound _ _ n ((without s.live key).map Prod.snd)
  by_cases hex : ∃ i, (key, i) ∈ s.live
  · obtain ⟨i, hm⟩ := hex
    obtain ⟨hi, hk⟩ := h.mem_iff.mp hm
    exact (h.sound.remove hi hk).perm (h.without_perm hm)
  · push Not at hex
    have hnone := h.sound.probe_none (h.not_slot hex)
    have hsame : s.index.remove key s.slots = s.index := by
      simp only [Index.remove, hnone]
    rw [without_eq_self hex]
    show Sound (s.index.remove key s.slots) s.slots n _
    rw [hsame]
    exact h.sound

theorem Held.rewrite (h : s.Held n capacity) {slots : Array (Slot K ρ)}
    (hallowed : s.Allowed capacity (.rewrite slots)) :
    (s.step (.rewrite slots)).Held n capacity := by
  refine ⟨h.sound.congr fun i hi => ?_, hallowed, h.keys, h.bound⟩
  obtain ⟨entry, hm, rfl⟩ := List.mem_map.mp hi
  exact (hallowed entry hm).trans (h.slots entry hm).symm

theorem Held.step (hn : capacity < n) (s : Owned K ρ) (call : Call K ρ) (h : s.Held n capacity)
    (hallowed : s.Allowed capacity call) : (s.step call).Held n capacity := by
  cases call with
  | insert key handle => exact h.insert hn hallowed
  | remove key => exact h.remove key
  | rewrite slots => exact h.rewrite hallowed

/-- **What an owner that keeps its promise has built is the map.** -/
theorem Held.represents (h : s.Held n capacity) : Represents s.index s.slots s.live where
  keys := h.keys
  probe := fun key handle => by rw [h.sound.probe_iff, h.mem_iff]
  get := fun key handle => by rw [h.sound.get_eq_some_iff, h.mem_iff]
  len := by rw [h.sound.len, List.length_map]
  reachable := h.sound.reachable
  free := h.sound.free
  probeEnds := h.sound.probeEnds
  insertEnds := fun _ handle hnone => h.sound.insertEnds handle hnone
  removeEnds := fun _ _ hsome => h.sound.removeEnds hsome

/-- **The index is a correct finite map, whatever collides.** -/
theorem run_represents {capacity : ℕ} {hasher : K → UInt64} {ix : Index K}
    (h : withCapacity capacity hasher = some ix) {calls : List (Call K ρ)}
    (hallowed : Along step (Allowed capacity) (start ix) calls) :
    Represents ((start ix).run calls).index ((start ix).run calls).slots
      ((start ix).run calls).live := by
  obtain ⟨n, hn, hroom, -, -, hsound⟩ := withCapacity_sound (ρ := ρ) h
  have hstart : (start ix : Owned K ρ).Held n capacity :=
    ⟨hsound _, by simp [start], List.nodup_nil, Nat.zero_le _⟩
  exact (hallowed.invariant (Held.step (by omega)) hstart).represents

/-- Three keys of one hash: one moves to another slot, one is removed from the middle of the
run. -/
theorem run_represents_collision :
    let ix : Index ℕ := ⟨Array.replicate 16 ⟨0, 4294967295⟩, 15, 0, fun _ => 14⟩
    let slots : Array (Slot ℕ Unit) :=
      #[⟨5, (), 0, 0, 0⟩, ⟨6, (), 0, 0, 0⟩, ⟨7, (), 0, 0, 0⟩, ⟨5, (), 0, 0, 0⟩]
    let after := (start ix).run
      [.rewrite slots, .insert 5 0, .insert 6 1, .insert 7 2, .insert 5 3, .remove 6]
    Represents after.index after.slots after.live :=
  run_represents (show withCapacity 4 (fun _ => 14) = some _ from rfl) (by decide)

end Owned

end RustyTime.Index
