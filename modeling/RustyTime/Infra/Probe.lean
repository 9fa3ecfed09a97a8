import Mathlib.Data.ZMod.Basic
import Mathlib.Tactic.Ring

/-!
# Linear probing on a cyclic table

A table of `n` buckets is a function `ZMod n → Option α`, and every entry has a home bucket.
A lookup walks forward from the home until it meets the entry or an empty bucket, so the table
answers correctly exactly when every entry is `Probed`: no bucket between its home and its own
place is empty.

Deletion without tombstones moves entries back into the hole it leaves. `Shifting` is the
invariant of that walk: only the hole may interrupt a probe path, and no entry the walk has
already passed has the hole on its path.

* `Probed.fill` — filling an empty bucket that a walk from home reaches keeps `Probed`
* `Probed.replace` — exchanging an entry for one with the same home keeps `Probed`
* `Probed.clear` — emptying a bucket starts a `Shifting` walk
* `Shifting.skip`, `Shifting.move` — the two cases of one step of the walk
* `Shifting.stop` — the walk ends at an empty bucket with `Probed` restored
-/

namespace Infra.Probe

set_option linter.unusedSectionVars false

variable {n : ℕ} [NeZero n] {α : Type*}

/-! ## Displacement -/

/-- How far forward `p` is from `h`. -/
def gap (h p : ZMod n) : ℕ := (p - h).val

theorem gap_lt (h p : ZMod n) : gap h p < n := ZMod.val_lt _

@[simp] theorem gap_self (p : ZMod n) : gap p p = 0 := by simp [gap]

theorem add_gap (h p : ZMod n) : h + (gap h p : ZMod n) = p := by
  simp [gap]

theorem gap_add {h : ZMod n} {d : ℕ} (hd : d < n) : gap h (h + d) = d := by
  unfold gap
  rw [add_sub_cancel_left, ZMod.val_natCast, Nat.mod_eq_of_lt hd]

theorem natCast_inj {d e : ℕ} (hd : d < n) (he : e < n) (h : (d : ZMod n) = e) : d = e := by
  have := congrArg ZMod.val h
  rwa [ZMod.val_natCast, ZMod.val_natCast, Nat.mod_eq_of_lt hd, Nat.mod_eq_of_lt he] at this

theorem add_natCast_ne {h : ZMod n} {d : ℕ} (h0 : 0 < d) (hd : d < n) : h + (d : ZMod n) ≠ h := by
  intro he
  have hz : (d : ZMod n) = ((0 : ℕ) : ZMod n) := by simpa using he
  exact absurd (natCast_inj hd (NeZero.pos n) hz) (by omega)

/-- Stepping back `g` from a place `d` past home leaves `d - g` when home is not passed. -/
theorem gap_of_le {h p q : ZMod n} {g : ℕ} (hq : q + (g : ZMod n) = p) (hg : g ≤ gap h p) :
    gap h q = gap h p - g := by
  have hlt := gap_lt h p
  have : q = h + ((gap h p - g : ℕ) : ZMod n) := by
    rw [Nat.cast_sub hg, ← add_sub_assoc, add_gap, ← hq]
    ring
  rw [this, gap_add (by omega)]

/-- Stepping back past home wraps around. -/
theorem gap_of_lt {h p q : ZMod n} {g : ℕ} (hq : q + (g : ZMod n) = p) (hg : gap h p < g)
    (hgn : g ≤ n) : gap h q = gap h p + n - g := by
  have : q = h + ((gap h p + n - g : ℕ) : ZMod n) := by
    rw [Nat.cast_sub (by omega), Nat.cast_add, ZMod.natCast_self, add_zero, ← add_sub_assoc,
      add_gap, ← hq]
    ring
  rw [this, gap_add (by omega)]

/-- **The deletion test.** The hole lies on the probe path of the entry at `p`, which sits `g`
places past the hole, exactly when the hole is nearer to home than `p` is. -/
theorem gap_lt_gap_iff {h hole p : ZMod n} {g : ℕ} (hp : hole + (g : ZMod n) = p) (h0 : 0 < g)
    (hg : g ≤ n) : gap h hole < gap h p ↔ g ≤ gap h p := by
  have hlt := gap_lt h p
  constructor
  · intro hh
    by_contra hc
    rw [gap_of_lt hp (by omega) hg] at hh
    omega
  · intro hh
    rw [gap_of_le hp hh]
    omega

/-- One place further on, the distance to anything else is one less. -/
theorem gap_succ {i p : ZMod n} (h : p ≠ i) : gap i p = gap (i + 1) p + 1 := by
  have hlt := gap_lt (i + 1) p
  have hp : i + ((gap (i + 1) p + 1 : ℕ) : ZMod n) = p := by
    rw [Nat.cast_add, Nat.cast_one, add_comm _ 1, ← add_assoc, add_gap]
  rcases Nat.lt_or_ge (gap (i + 1) p + 1) n with hn | hn
  · conv_lhs => rw [← hp]
    exact gap_add hn
  · have : gap (i + 1) p + 1 = n := by omega
    rw [this, ZMod.natCast_self, add_zero] at hp
    exact absurd hp.symm h

/-! ## Probe paths -/

/-- No bucket of the `d` ones from `h` on is empty. -/
def Covered (tab : ZMod n → Option α) (h : ZMod n) (d : ℕ) : Prop :=
  ∀ e, e < d → tab (h + (e : ZMod n)) ≠ none

/-- Every entry is reachable from its home without meeting an empty bucket. -/
def Probed (home : α → ZMod n) (tab : ZMod n → Option α) : Prop :=
  ∀ p a, tab p = some a → Covered tab (home a) (gap (home a) p)

theorem probed_empty (home : α → ZMod n) : Probed home (fun _ => none) := by
  intro p a h
  cases h

/-- No two buckets hold the same entry. -/
def Distinct (tab : ZMod n → Option α) : Prop :=
  ∀ p q a, tab p = some a → tab q = some a → p = q

theorem distinct_empty : Distinct (fun _ : ZMod n => (none : Option α)) := by
  intro p q a h
  cases h

variable {home : α → ZMod n} {tab : ZMod n → Option α}

/-- A covered path is extended at its near end by an occupied bucket. -/
theorem Covered.cons {i : ZMod n} {d : ℕ} (hi : tab i ≠ none) (hc : Covered tab (i + 1) d) :
    Covered tab i (d + 1) := by
  intro e he
  cases e with
  | zero => simpa using hi
  | succ e =>
    have := hc e (by omega)
    rwa [show i + ((e + 1 : ℕ) : ZMod n) = i + 1 + (e : ZMod n) by push_cast; ring]

theorem Covered.tail {i : ZMod n} {d : ℕ} (hc : Covered tab i (d + 1)) :
    tab i ≠ none ∧ Covered tab (i + 1) d := by
  refine ⟨by simpa using hc 0 (by omega), fun e he => ?_⟩
  have := hc (e + 1) (by omega)
  rwa [show i + ((e + 1 : ℕ) : ZMod n) = i + 1 + (e : ZMod n) by push_cast; ring] at this

theorem Covered.update {h : ZMod n} {d : ℕ} (hc : Covered tab h d) (p : ZMod n) (a : α) :
    Covered (Function.update tab p (some a)) h d := by
  intro e he
  by_cases hp : h + (e : ZMod n) = p
  · simp [hp]
  · rw [Function.update_of_ne hp]
    exact hc e he

/-- Filling the empty bucket a walk from home arrives at keeps every entry reachable. -/
theorem Probed.fill (hP : Probed home tab) {p : ZMod n} {a : α} (hp : tab p = none)
    (hc : Covered tab (home a) (gap (home a) p)) :
    Probed home (Function.update tab p (some a)) := by
  intro q b hq
  by_cases hqp : q = p
  · subst hqp
    rw [Function.update_self] at hq
    cases hq
    exact hc.update q a
  · rw [Function.update_of_ne hqp] at hq
    exact (hP q b hq).update p a

/-- An entry may be exchanged for one with the same home. -/
theorem Probed.replace (hP : Probed home tab) {p : ZMod n} {a b : α} (hp : tab p = some a)
    (hh : home b = home a) : Probed home (Function.update tab p (some b)) := by
  intro q c hq
  by_cases hqp : q = p
  · subst hqp
    rw [Function.update_self] at hq
    cases hq
    rw [hh]
    exact (hP q a hp).update q b
  · rw [Function.update_of_ne hqp] at hq
    exact (hP q c hq).update p b

theorem Distinct.replace (hD : Distinct tab) {p : ZMod n} {a : α}
    (ha : ∀ q, q ≠ p → tab q ≠ some a) : Distinct (Function.update tab p (some a)) := by
  intro q r b hq hr
  rw [Function.update_apply] at hq hr
  split at hq <;> split at hr
  · next h1 h2 => rw [h1, h2]
  · next hrp => cases hq; exact absurd hr (ha r hrp)
  · next hqp _ => cases hr; exact absurd hq (ha q hqp)
  · exact hD q r b hq hr

theorem Distinct.fill (hD : Distinct tab) {p : ZMod n} {a : α} (ha : ∀ q, tab q ≠ some a) :
    Distinct (Function.update tab p (some a)) :=
  hD.replace fun q _ => ha q

/-! ## Backward-shift deletion -/

/-- The state of the deletion walk: `hole` is empty and `g` buckets from the hole on, the hole
included, have been examined. -/
structure Shifting (home : α → ZMod n) (tab : ZMod n → Option α) (hole : ZMod n) (g : ℕ) :
    Prop where
  pos : 0 < g
  le : g ≤ n
  empty : tab hole = none
  /-- Only the hole may interrupt a probe path. -/
  covered : ∀ p a, tab p = some a → ∀ e, e < gap (home a) p →
    tab (home a + (e : ZMod n)) ≠ none ∨ home a + (e : ZMod n) = hole
  /-- The walk leaves no entry behind whose path the hole interrupts. -/
  passed : ∀ j, 0 < j → j < g → ∀ a, tab (hole + (j : ZMod n)) = some a →
    gap (home a) (hole + (j : ZMod n)) < j

/-- Emptying a bucket starts the walk. -/
theorem Probed.clear (hP : Probed home tab) (p : ZMod n) :
    Shifting home (Function.update tab p none) p 1 where
  pos := Nat.one_pos
  le := NeZero.one_le
  empty := Function.update_self ..
  covered := by
    intro q a hq e he
    have hqp : q ≠ p := by rintro rfl; rw [Function.update_self] at hq; cases hq
    rw [Function.update_of_ne hqp] at hq
    by_cases hep : home a + (e : ZMod n) = p
    · exact Or.inr hep
    · left
      rw [Function.update_of_ne hep]
      exact hP q a hq e he
  passed := by intro j h0 h1; omega

/-- The entry under the cursor does not have the hole on its path: leave it. -/
theorem Shifting.skip {hole : ZMod n} {g : ℕ} (hS : Shifting home tab hole g) (hg : g < n)
    {a : α} (ha : tab (hole + (g : ZMod n)) = some a)
    (hd : gap (home a) (hole + (g : ZMod n)) < g) : Shifting home tab hole (g + 1) where
  pos := Nat.succ_pos g
  le := hg
  empty := hS.empty
  covered := hS.covered
  passed := by
    intro j h0 h1 b hb
    by_cases hj : j = g
    · subst hj
      rw [ha] at hb
      cases hb
      exact hd
    · exact hS.passed j h0 (by omega) b hb

/-- The entry under the cursor has the hole on its path: move it into the hole. -/
theorem Shifting.move {hole : ZMod n} {g : ℕ} (hS : Shifting home tab hole g) (hg : g < n)
    {a : α} (ha : tab (hole + (g : ZMod n)) = some a)
    (hd : g ≤ gap (home a) (hole + (g : ZMod n))) :
    Shifting home (Function.update (Function.update tab hole (some a)) (hole + (g : ZMod n)) none)
      (hole + (g : ZMod n)) 1 := by
  have hne : hole + (g : ZMod n) ≠ hole := add_natCast_ne hS.pos hg
  refine ⟨Nat.one_pos, NeZero.one_le, Function.update_self .., ?_, ?_⟩
  · intro p b hp e he
    have hpi : p ≠ hole + (g : ZMod n) := by
      rintro rfl; rw [Function.update_self] at hp; cases hp
    rw [Function.update_of_ne hpi] at hp
    by_cases hei : home b + (e : ZMod n) = hole + (g : ZMod n)
    · exact Or.inr hei
    · left
      rw [Function.update_of_ne hei]
      by_cases heh : home b + (e : ZMod n) = hole
      · rw [heh, Function.update_self]; simp
      · rw [Function.update_of_ne heh]
        by_cases hph : p = hole
        · -- the moved entry: its path ended at the cursor and is now cut at the hole
          subst hph
          rw [Function.update_self] at hp
          cases hp
          have hlt := gap_of_le rfl hd
          exact (hS.covered _ a ha e (by omega)).resolve_right heh
        · rw [Function.update_of_ne hph] at hp
          exact (hS.covered p b hp e he).resolve_right heh
  · intro j h0 h1
    omega

/-- **The walk ends at an empty bucket, and every entry is reachable again.** -/
theorem Shifting.stop {hole : ZMod n} {g : ℕ} (hS : Shifting home tab hole g)
    (hi : tab (hole + (g : ZMod n)) = none) : Probed home tab := by
  intro p a hp e he
  rcases hS.covered p a hp e he with h | h
  · exact h
  · exfalso
    have hph : p ≠ hole := by rintro rfl; rw [hS.empty] at hp; cases hp
    have hj0 : 0 < gap hole p := by
      rcases Nat.eq_zero_or_pos (gap hole p) with h0 | h0
      · have := add_gap hole p
        rw [h0, Nat.cast_zero, add_zero] at this
        exact absurd this.symm hph
      · exact h0
    have hjn : gap hole p < n := gap_lt hole p
    have hdn : gap (home a) p < n := gap_lt _ p
    have hhole : gap (home a) hole = e := by rw [← h]; exact gap_add (by omega)
    have hgap : gap (home a) p = e + gap hole p := by
      have hle : gap hole p ≤ gap (home a) p :=
        (gap_lt_gap_iff (add_gap hole p) hj0 hjn.le).mp (by rw [hhole]; exact he)
      have := gap_of_le (add_gap hole p) hle
      omega
    have hgj : g < gap hole p := by
      rcases Nat.lt_trichotomy (gap hole p) g with hlt | heq | hgt
      · have := hS.passed _ hj0 hlt a (by rw [add_gap]; exact hp)
        rw [add_gap] at this
        omega
      · rw [← heq, add_gap, hp] at hi
        cases hi
      · exact hgt
    have hpath := hS.covered p a hp (e + g) (by omega)
    rw [Nat.cast_add, ← add_assoc, h] at hpath
    rcases hpath with hpath | hpath
    · exact hpath hi
    · exact add_natCast_ne hS.pos (by omega) hpath

/-- One move keeps the entries of the table: nothing is lost and nothing is duplicated. -/
theorem exists_move_iff {hole i : ZMod n} (hne : i ≠ hole) (he : tab hole = none) {a : α}
    (ha : tab i = some a) (b : α) :
    (∃ p, Function.update (Function.update tab hole (some a)) i none p = some b) ↔
      ∃ p, tab p = some b := by
  constructor
  · rintro ⟨p, hp⟩
    have hpi : p ≠ i := by rintro rfl; rw [Function.update_self] at hp; cases hp
    rw [Function.update_of_ne hpi] at hp
    by_cases hph : p = hole
    · subst hph
      rw [Function.update_self] at hp
      exact ⟨i, by rw [ha, hp]⟩
    · exact ⟨p, by rwa [Function.update_of_ne hph] at hp⟩
  · rintro ⟨p, hp⟩
    by_cases hpi : p = i
    · subst hpi
      exact ⟨hole, by rw [Function.update_of_ne hne.symm, Function.update_self, ← ha, hp]⟩
    · have hph : p ≠ hole := by rintro rfl; rw [he] at hp; cases hp
      exact ⟨p, by rw [Function.update_of_ne hpi, Function.update_of_ne hph, hp]⟩

theorem Distinct.move (hD : Distinct tab) {hole i : ZMod n} {a : α} (ha : tab i = some a) :
    Distinct (Function.update (Function.update tab hole (some a)) i none) := by
  have key : ∀ p b, Function.update (Function.update tab hole (some a)) i none p = some b →
      p ≠ i ∧ ((p = hole ∧ b = a) ∨ (p ≠ hole ∧ tab p = some b)) := by
    intro p b hp
    have hpi : p ≠ i := by rintro rfl; rw [Function.update_self] at hp; cases hp
    rw [Function.update_of_ne hpi] at hp
    refine ⟨hpi, ?_⟩
    by_cases hph : p = hole
    · subst hph
      rw [Function.update_self] at hp
      exact Or.inl ⟨rfl, (Option.some.inj hp).symm⟩
    · exact Or.inr ⟨hph, by rwa [Function.update_of_ne hph] at hp⟩
  intro p q b hp hq
  obtain ⟨hpi, hp⟩ := key p b hp
  obtain ⟨hqi, hq⟩ := key q b hq
  rcases hp with ⟨hp, hb⟩ | ⟨-, hp⟩ <;> rcases hq with ⟨hq, hb'⟩ | ⟨-, hq⟩
  · rw [hp, hq]
  · exact absurd (hD q i b hq (by rw [ha, hb])) hqi
  · exact absurd (hD p i b hp (by rw [ha, hb'])) hpi
  · exact hD p q b hp hq

theorem Distinct.clear (hD : Distinct tab) (p : ZMod n) :
    Distinct (Function.update tab p none) := by
  intro q r a hq hr
  rw [Function.update_apply] at hq hr
  split at hq <;> split at hr
  · cases hq
  · cases hq
  · cases hr
  · exact hD q r a hq hr

end Infra.Probe
