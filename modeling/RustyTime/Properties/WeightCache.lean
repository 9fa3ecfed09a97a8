import RustyTime.Infra.Run
import RustyTime.Properties.Slew

/-!
# The weight cache

`sync_weights` computes all the weights when the inputs they share have moved, and the newest
one otherwise. `Cached` says which of the stored weights are the definition's: all but those of
the samples pushed since they were last computed.

* `syncWeights_liveWeights` — the weights afterwards, one by one
* `syncWeights_defined_iff` — when all of them are the definition's
* `regress_transparent` — over every run
-/

namespace RustyTime.SampleRegister

set_option linter.unusedSectionVars false

variable {R : Type} [Field R] [LinearOrder R] [IsStrictOrderedRing R] {reg : SampleRegister R}
  {cap : ℕ} {history : List (Sample R)}

/-! ## A register built anew -/

/-- What `regress` puts under every excess delay. -/
def weightFloor (minDelay ratio : R) : R := max (minDelay * ratio) 1e-9

/-- Every weight of a window, from the definition. -/
def definedWeights (window : List (Sample R)) (ratio : R) : List R :=
  match minimumDelay window with
  | none => []
  | some minDelay => window.map fun s => baseWeight minDelay (weightFloor minDelay ratio) s.delay

/-- The inputs that all the weights of a window share. -/
def weightsKey (minDelay : WithTop R) (ratio : R) : Option (R × R) :=
  match minDelay with
  | none => none
  | some minDelay => some (minDelay, ratio)

/-- A register freshly built with the configuration and the window of another, its weights
computed from the definition. -/
def rebuilt (reg : SampleRegister R) : SampleRegister R :=
  { reg with
    samples := reg.window
    head := 0
    weights := definedWeights reg.window reg.weightFloorRatio
    weightsFor := weightsKey (minimumDelay reg.window) reg.weightFloorRatio
    minDelay := minimumDelay reg.window }

theorem minimumDelay_nil_iff {window : List (Sample R)} :
    minimumDelay window = none ↔ window = [] := by
  rw [minimumDelay]
  exact List.minimum_eq_top.trans List.map_eq_nil_iff

theorem length_definedWeights (window : List (Sample R)) (ratio : R) :
    (definedWeights window ratio).length = window.length := by
  unfold definedWeights
  split
  · next hmin => rw [minimumDelay_nil_iff.mp hmin]; rfl
  · rw [List.length_map]

theorem rebuilt_tracks (ht : Tracks reg cap history) : Tracks reg.rebuilt cap history where
  capacity := ht.capacity
  pos := ht.pos
  window := ht.window
  head := lt_of_lt_of_le (by decide : 0 < 3) ht.pos
  live := Nat.zero_le _
  weights := length_definedWeights _ _
  minDelay := rfl

/-- The regression reads of a register its configuration, its window and their weights. -/
structure SameInputs (reg reg' : SampleRegister R) : Prop where
  window : reg'.window = reg.window
  liveWeights : reg'.liveWeights = reg.liveWeights
  weightFloorRatio : reg'.weightFloorRatio = reg.weightFloorRatio
  offsetWeightFloorRatio : reg'.offsetWeightFloorRatio = reg.offsetWeightFloorRatio
  slopeDensityWeighting : reg'.slopeDensityWeighting = reg.slopeDensityWeighting
  adaptiveWindow : reg'.adaptiveWindow = reg.adaptiveWindow
  offsetWeightDispersionK : reg'.offsetWeightDispersionK = reg.offsetWeightDispersionK
  offsetAgeHalflifeS : reg'.offsetAgeHalflifeS = reg.offsetAgeHalflifeS

theorem SameInputs.rows {reg' : SampleRegister R} (h : SameInputs reg reg') (std : StdFloat R) :
    reg'.rows std = reg.rows std := by
  have hlen : reg'.len = reg.len := by
    have := congrArg List.length h.window
    rwa [SampleRegister.window, SampleRegister.window, List.length_drop, List.length_drop] at this
  have hdensity : reg'.density = reg.density := by
    unfold density
    rw [hlen, h.window, h.slopeDensityWeighting]
  have hweights : reg'.weights.drop reg'.head = reg.weights.drop reg.head := h.liveWeights
  unfold SampleRegister.rows
  rw [hdensity, h.window, hweights]

theorem SameInputs.regressRows {reg' : SampleRegister R} (h : SameInputs reg reg')
    (std : StdFloat R) (minDelay now : R) :
    reg'.regressRows std minDelay now = reg.regressRows std minDelay now := by
  have hoffset : ∀ (used : List (Row R)) (fit : Fit R),
      reg'.offsetAt std minDelay now used fit = reg.offsetAt std minDelay now used fit := by
    intro used fit
    unfold offsetAt
    rw [h.offsetWeightFloorRatio, h.weightFloorRatio, h.offsetWeightDispersionK,
      h.offsetAgeHalflifeS]
  unfold SampleRegister.regressRows
  rw [h.rows, h.adaptiveWindow]
  simp only [hoffset]

/-! ## The weights, one by one -/

theorem syncWeights_liveWeights (ht : Tracks reg cap history) (minDelay floor : R) (i : ℕ) :
    (reg.syncWeights minDelay floor).liveWeights[i]? =
      if reg.weightsFor ≠ some (minDelay, reg.weightFloorRatio) ∨ reg.window.length ≤ i + 1 then
        reg.window[i]?.map fun s => baseWeight minDelay floor s.delay
      else reg.liveWeights[i]? := by
  have hlen : reg.window.length = reg.samples.length - reg.head := List.length_drop
  have hsame := ht.weights
  have hsample : reg.window[i]? = reg.samples[reg.head + i]? := List.getElem?_drop
  have hweight : reg.liveWeights[i]? = reg.weights[reg.head + i]? := List.getElem?_drop
  rw [hsample, hweight, liveWeights, List.getElem?_drop]
  show (reg.weights.mapIdx _)[reg.head + i]? = _
  rw [List.getElem?_mapIdx]
  by_cases hi : reg.head + i < reg.samples.length
  · rw [List.getElem?_eq_getElem hi, List.getElem?_eq_getElem (by omega), Option.map_some,
      Option.map_some]
    dsimp only
    by_cases hstale : reg.weightsFor = some (minDelay, reg.weightFloorRatio)
    · rw [if_neg (not_not.mpr hstale)]
      by_cases hlast : reg.window.length ≤ i + 1
      · rw [if_pos (by omega), if_pos (.inr hlast)]
      · rw [if_neg (by omega), if_neg (not_or.mpr ⟨not_not.mpr hstale, hlast⟩)]
    · rw [if_pos hstale, if_pos (Nat.le_add_right _ _), if_pos (.inl hstale)]
  · rw [List.getElem?_eq_none (by omega), List.getElem?_eq_none (by omega)]
    simp

/-! ## What is cached -/

/-- A register, and the pushes since its weights were last computed or forgotten. -/
structure Watched (R : Type) where
  reg : SampleRegister R
  unseen : ℕ

/-- The calls on a register. -/
inductive Call (R : Type) where
  | op (op : Op R)
  | configure (setting : Setting R)

namespace Watched

def step (std : StdFloat R) (t : Watched R) : Call R → Watched R
  | .op (.push s) => ⟨t.reg.push s, t.unseen + 1⟩
  | .op (.slewSamples tChange dfreqPpm doffset) =>
    ⟨t.reg.slewSamples tChange dfreqPpm doffset, t.unseen⟩
  | .op .clear => ⟨t.reg.clear, 0⟩
  | .op (.regress now) => ⟨(t.reg.regress std now).1, if t.reg.len < 3 then t.unseen else 0⟩
  | .configure setting => ⟨t.reg.configure setting, t.unseen⟩

def start (capacity : ℕ) : Watched R := ⟨new capacity, 0⟩

/-- A regression that finds the inputs of its weights unchanged comes after one push at most. -/
def Weighs (t : Watched R) : Call R → Prop
  | .op (.regress _) => 3 ≤ t.reg.len →
    t.reg.weightsFor = weightsKey t.reg.minDelay t.reg.weightFloorRatio → t.unseen ≤ 1
  | _ => True

/-- The regression of a register is that of the register built anew. -/
def Transparent (std : StdFloat R) (t : Watched R) : Call R → Prop
  | .op (.regress now) => (t.reg.regress std now).2 = (t.reg.rebuilt.regress std now).2
  | _ => True

/-- The stored weights are the definition's for the inputs they were computed for, and 0 for
the samples pushed since. -/
structure Cached (t : Watched R) : Prop where
  tracks : ∃ cap history, Tracks t.reg cap history
  weights : ∀ minDelay ratio, t.reg.weightsFor = some (minDelay, ratio) → ∀ i,
    t.reg.liveWeights[i]? = t.reg.window[i]?.map fun s =>
      if i + t.unseen < t.reg.window.length then
        baseWeight minDelay (weightFloor minDelay ratio) s.delay
      else 0

variable {t : Watched R}

theorem Cached.push (h : Cached t) (s : Sample R) :
    Cached ⟨t.reg.push s, t.unseen + 1⟩ := by
  obtain ⟨⟨cap, history, ht⟩, hweights⟩ := h
  obtain ⟨k, hk, hwindow, hlive⟩ := push_parallel ht s
  refine ⟨⟨cap, _, push_tracks ht s⟩, ?_⟩
  intro minDelay ratio hfor i
  rw [(t.reg.push_settings s).2.2.1] at hfor
  have hsame := length_liveWeights ht
  dsimp only
  rw [hwindow, hlive, List.getElem?_drop, List.getElem?_drop, List.length_drop,
    List.length_append, List.length_singleton]
  by_cases hi : k + i < t.reg.window.length
  · -- a sample that was there
    rw [List.getElem?_append_left hi, List.getElem?_append_left (hsame ▸ hi),
      hweights minDelay ratio hfor]
    have hiff : k + i + t.unseen < t.reg.window.length ↔
        i + (t.unseen + 1) < t.reg.window.length + 1 - k := by omega
    simp only [hiff]
  · -- the new one, or none
    rw [List.getElem?_append_right (not_lt.mp hi),
      List.getElem?_append_right (hsame ▸ not_lt.mp hi), hsame]
    have hnew : ¬i + (t.unseen + 1) < t.reg.window.length + 1 - k := by omega
    simp only [hnew, if_false]
    cases k + i - t.reg.window.length <;> rfl

theorem Cached.slewSamples (h : Cached t) (tChange dfreqPpm doffset : R) :
    Cached ⟨t.reg.slewSamples tChange dfreqPpm doffset, t.unseen⟩ := by
  obtain ⟨⟨cap, history, ht⟩, hweights⟩ := h
  refine ⟨⟨cap, _, slewSamples_tracks ht tChange dfreqPpm doffset⟩, ?_⟩
  intro minDelay ratio hfor i
  dsimp only
  rw [window_slewSamples ht.live, List.length_map, List.getElem?_map, Option.map_map]
  exact hweights minDelay ratio hfor i

theorem Cached.configure (h : Cached t) (setting : Setting R) :
    Cached ⟨t.reg.configure setting, t.unseen⟩ := by
  obtain ⟨⟨cap, history, ht⟩, hweights⟩ := h
  refine ⟨⟨cap, history, configure_tracks ht setting⟩, ?_⟩
  cases setting <;> exact hweights

theorem definedWeights_eq {window : List (Sample R)} {minDelay : R}
    (hmin : minimumDelay window = some minDelay) (ratio : R) :
    definedWeights window ratio =
      window.map fun s => baseWeight minDelay (weightFloor minDelay ratio) s.delay := by
  rw [definedWeights, hmin]

/-- **`sync_weights` leaves the definition's weights exactly when it computes all of them, or has
seen all but the newest sample.** -/
theorem syncWeights_defined_iff (h : Cached t) {minDelay : R}
    (hmin : t.reg.minDelay = some minDelay) (hlen : 3 ≤ t.reg.len) :
    (t.reg.syncWeights minDelay (weightFloor minDelay t.reg.weightFloorRatio)).liveWeights =
        definedWeights t.reg.window t.reg.weightFloorRatio ↔
      (t.reg.weightsFor = weightsKey t.reg.minDelay t.reg.weightFloorRatio → t.unseen ≤ 1) := by
  obtain ⟨⟨cap, history, ht⟩, hweights⟩ := h
  have hwindow : t.reg.window.length = t.reg.len := List.length_drop
  have hkey : weightsKey t.reg.minDelay t.reg.weightFloorRatio =
      some (minDelay, t.reg.weightFloorRatio) := by rw [hmin]; rfl
  rw [definedWeights_eq (ht.minDelay.symm.trans hmin), hkey]
  constructor
  · intro hdefined hfor
    by_contra hunseen
    -- the sample before the newest was pushed unseen, and is not weighed now
    have hi : t.reg.window.length - 2 < t.reg.window.length := by omega
    have hget := congrArg (fun l : List R => l[t.reg.window.length - 2]?) hdefined
    rw [syncWeights_liveWeights ht, if_neg (not_or.mpr ⟨not_not.mpr hfor, by omega⟩),
      hweights minDelay _ hfor, List.getElem?_map, List.getElem?_eq_getElem hi, Option.map_some,
      Option.map_some, if_neg (by omega)] at hget
    have hle := le_baseWeight minDelay (weightFloor minDelay t.reg.weightFloorRatio)
      t.reg.window[t.reg.window.length - 2].delay
    rw [← Option.some.inj hget] at hle
    exact absurd hle (not_le.mpr (by norm_num))
  · intro hseen
    refine List.ext_getElem? fun i => ?_
    rw [syncWeights_liveWeights ht, List.getElem?_map]
    split
    · rfl
    · next hkept =>
      obtain ⟨hfor, hi⟩ := not_or.mp hkept
      have hfor' := not_not.mp hfor
      have hunseen := hseen hfor'
      rw [hweights minDelay _ hfor']
      have hold : i + t.unseen < t.reg.window.length := by omega
      simp only [hold, if_true]

theorem Cached.regress (h : Cached t) (std : StdFloat R) (now : R)
    (hseen : t.Weighs (.op (.regress now))) : Cached (t.step std (.op (.regress now))) := by
  by_cases hlen : 3 ≤ t.reg.len
  · obtain ⟨cap, history, ht⟩ := h.tracks
    obtain ⟨minDelay, hmin, hregress⟩ := regress_of_tracks std ht hlen now
    have hdefined := (syncWeights_defined_iff h hmin hlen).mpr (hseen hlen)
    rw [definedWeights_eq (ht.minDelay.symm.trans hmin)] at hdefined
    have hstep : t.step std (.op (.regress now)) =
        ⟨t.reg.syncWeights minDelay (weightFloor minDelay t.reg.weightFloorRatio), 0⟩ := by
      show Watched.mk (t.reg.regress std now).1 (if t.reg.len < 3 then t.unseen else 0) = _
      rw [hregress, if_neg (by omega)]
      rfl
    rw [hstep]
    refine ⟨⟨cap, history, syncWeights_tracks ht _ _⟩, ?_⟩
    rintro _ _ ⟨⟩ i
    dsimp only
    rw [hdefined, List.getElem?_map]
    show _ = (t.reg.window[i]?).map _
    refine Option.map_congr fun s hs => ?_
    have hi : i + 0 < t.reg.window.length := (List.getElem?_eq_some_iff.mp hs).1
    exact (if_pos hi).symm
  · have hstep : t.step std (.op (.regress now)) = t := by
      have hshort : t.reg.len < 3 := by omega
      show Watched.mk (t.reg.regress std now).1 (if t.reg.len < 3 then t.unseen else 0) = _
      unfold SampleRegister.regress
      rw [if_pos hshort, if_pos hshort]
    rw [hstep]
    exact h

theorem Cached.step (h : Cached t) (std : StdFloat R) {call : Call R} (hseen : t.Weighs call) :
    Cached (t.step std call) := by
  cases call with
  | configure setting => exact h.configure setting
  | op op =>
    cases op with
    | push s => exact h.push s
    | slewSamples tChange dfreqPpm doffset => exact h.slewSamples tChange dfreqPpm doffset
    | regress now => exact h.regress std now hseen
    | clear =>
      obtain ⟨cap, history, ht⟩ := h.tracks
      exact ⟨⟨cap, _, clear_tracks ht⟩, fun _ _ hfor => nomatch hfor⟩

/-- The register built anew keeps its weights. -/
theorem rebuilt_synced {reg : SampleRegister R} {cap : ℕ} {history : List (Sample R)}
    (ht : Tracks reg cap history) {minDelay : R} (hmin : reg.minDelay = some minDelay)
    (hlen : 3 ≤ reg.len) :
    (reg.rebuilt.syncWeights minDelay (weightFloor minDelay reg.weightFloorRatio)).liveWeights =
      definedWeights reg.window reg.weightFloorRatio := by
  have hcached : Cached (⟨reg.rebuilt, 0⟩ : Watched R) := by
    refine ⟨⟨cap, history, rebuilt_tracks ht⟩, ?_⟩
    intro minDelay' ratio hfor i
    have hmin' : minimumDelay reg.window = some minDelay := ht.minDelay.symm.trans hmin
    have hkey : reg.rebuilt.weightsFor = some (minDelay, reg.weightFloorRatio) := by
      show weightsKey (minimumDelay reg.window) _ = _
      rw [hmin']
      rfl
    obtain ⟨rfl, rfl⟩ := Prod.mk.inj (Option.some.inj (hkey.symm.trans hfor))
    show (definedWeights reg.window reg.weightFloorRatio)[i]? = (reg.window[i]?).map _
    rw [definedWeights_eq hmin', List.getElem?_map]
    refine Option.map_congr fun s hs => ?_
    have hi : i + 0 < reg.window.length := (List.getElem?_eq_some_iff.mp hs).1
    exact (if_pos hi).symm
  have hlen' : 3 ≤ reg.rebuilt.len := by
    show 3 ≤ reg.window.length - 0
    rwa [SampleRegister.window, List.length_drop, Nat.sub_zero]
  exact (syncWeights_defined_iff hcached (ht.minDelay.symm.trans hmin) hlen').mpr
    fun _ => Nat.zero_le 1

/-- A regression whose weights are all the definition's is that of the register built anew. -/
theorem Cached.transparent (h : Cached t) (std : StdFloat R) {call : Call R}
    (hseen : t.Weighs call) : t.Transparent std call := by
  cases call with
  | configure setting => trivial
  | op op =>
    cases op with
    | push s => trivial
    | slewSamples tChange dfreqPpm doffset => trivial
    | clear => trivial
    | regress now =>
      obtain ⟨cap, history, ht⟩ := h.tracks
      have hanew := rebuilt_tracks ht
      have hlen' : t.reg.rebuilt.len = t.reg.len := by
        show t.reg.window.length - 0 = _
        rw [SampleRegister.window, List.length_drop, Nat.sub_zero]
        rfl
      by_cases hlen : 3 ≤ t.reg.len
      · obtain ⟨minDelay, hmin, hregress⟩ := regress_of_tracks std ht hlen now
        obtain ⟨minDelay', hmin', hregress'⟩ :=
          regress_of_tracks std hanew (hlen' ▸ hlen) now
        obtain rfl : minDelay' = minDelay :=
          Option.some.inj (hmin'.symm.trans (ht.minDelay.symm.trans hmin))
        show (t.reg.regress std now).2 = (t.reg.rebuilt.regress std now).2
        rw [hregress, hregress']
        refine (SameInputs.regressRows ?_ std minDelay' now).symm
        refine ⟨rfl, ?_, rfl, rfl, rfl, rfl, rfl, rfl⟩
        exact (rebuilt_synced ht hmin hlen).trans
          ((syncWeights_defined_iff h hmin hlen).mpr (hseen hlen)).symm
      · show (t.reg.regress std now).2 = (t.reg.rebuilt.regress std now).2
        unfold SampleRegister.regress
        rw [if_pos (by omega), if_pos (by omega)]

theorem start_cached (capacity : ℕ) : Cached (start capacity : Watched R) :=
  ⟨⟨_, _, new_tracks capacity⟩, fun _ _ hfor => nomatch hfor⟩

/-- **The weight cache is transparent while no two pushes go unseen.** Over every run in which
every regression that finds the inputs of the weights unchanged comes after one push at most,
each regression is that of a register freshly built with the same configuration and window. -/
theorem regress_transparent (std : StdFloat R) (capacity : ℕ) (calls : List (Call R))
    (hcalls : Infra.Run.Along (step std) Weighs (start capacity) calls) :
    Infra.Run.Along (step std) (Transparent std) (start capacity) calls :=
  Infra.Run.Along.of_inv Cached (fun _ _ h hseen => h.step std hseen)
    (fun _ _ h hseen => h.transparent std hseen) (start_cached capacity) hcalls

instance (t : Watched R) (call : Call R) : Decidable (t.Weighs call) :=
  match call with
  | .op (.regress _) => inferInstanceAs (Decidable (_ → _ → _))
  | .op (.push _) => isTrue trivial
  | .op (.slewSamples _ _ _) => isTrue trivial
  | .op .clear => isTrue trivial
  | .configure _ => isTrue trivial

/-- Three samples of one delay, regressed over; two more, of which the last is off the line. -/
def twoUnseen : List (Call ℚ) :=
  [.op (.push ⟨0, 0, 1, 0⟩), .op (.push ⟨1, 0, 1, 0⟩), .op (.push ⟨2, 0, 1, 0⟩), .op (.regress 2),
    .op (.push ⟨3, 0, 1, 0⟩), .op (.push ⟨4, 1, 1, 0⟩), .op (.regress 4)]

/-- After the first three, and one more. -/
theorem regress_transparent_seen :
    Infra.Run.Along (step ⟨id, id, fun _ _ => none⟩) (Transparent ⟨id, id, fun _ _ => none⟩)
      (start 8) (twoUnseen.eraseIdx 4) :=
  regress_transparent ⟨id, id, fun _ _ => none⟩ 8 (twoUnseen.eraseIdx 4) (by decide +kernel)

/-- The first of the two keeps its weight of 0. -/
theorem not_transparent :
    ¬Infra.Run.Along (step ⟨id, id, fun _ _ => none⟩) (Transparent ⟨id, id, fun _ _ => none⟩)
      (start 8) twoUnseen := by
  rintro ⟨-, -, -, -, -, -, hlast, -⟩
  have hoffset := congrArg (Option.map fun e => e.offset) hlast
  revert hoffset
  decide +kernel

end Watched

end RustyTime.SampleRegister
