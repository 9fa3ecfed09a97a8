import Mathlib.Algebra.Order.Ring.Rat
import Mathlib.Algebra.Field.Rat
import RustyTime.Daemon.Sync
import RustyTime.Properties.Select

/-!
# Sources that have died

What `selected_index` makes of a source that once answered and then stopped.

* `sameAnswer_of_harmless` — when the dead change nothing
* `sameAnswer_iff` — otherwise there are estimates for which they do
-/

namespace RustyTime

set_option linter.unusedSectionVars false

variable {R : Type} [Field R] [LinearOrder R]

/-- Still counted towards the quorum. -/
def Source.alive (s : Source R) : Bool := decide (s.lostInARow < unreachableAfter)

/-- The sources that still answer, under their places. -/
def living (sources : List (Source R)) : List (Source R × Nat) :=
  sources.zipIdx.filter fun p => p.1.alive

/-- The dead make no difference: the selection from the living is the selection, each living
source taken for its place among all. -/
def SameAnswer (sources : List (Source R)) : Prop :=
  selectedIndex sources =
    (selectedIndex (sources.filter Source.alive)).bind fun k =>
      (living sources)[k]?.map Prod.snd

/-- No dead source has an estimate, or the quorum fails with the dead and without them. -/
def DeadHarmless (sources : List (Source R)) : Prop :=
  (∀ s ∈ sources, s.hasEstimate = true → s.alive = true) ∨
    sources.countP (fun s => s.hasEstimate) ≤
      sources.countP fun s => s.alive && !s.hasEstimate

instance (sources : List (Source R)) : Decidable (SameAnswer sources) :=
  inferInstanceAs (Decidable (_ = _))

instance (sources : List (Source R)) : Decidable (DeadHarmless sources) :=
  inferInstanceAs (Decidable ((∀ s ∈ sources, _ → _) ∨ _))

/-- What the quorum looks at. -/
def Source.flags (s : Source R) : Bool × Nat := (s.hasEstimate, s.lostInARow)

/-! ## The quorum -/

/-- The quorum's test. -/
def Quorate (sources : List (Source R)) : Prop :=
  ¬(1 < sources.countP (fun s => s.hasEstimate || s.alive) ∧
    sources.countP (fun s => s.hasEstimate) * 2 ≤
      sources.countP fun s => s.hasEstimate || s.alive)

theorem selectedIndex_of_quorate {sources : List (Source R)} (h : Quorate sources)
    (hne : estimates sources ≠ []) :
    selectedIndex sources = (select (estimates sources)).truechimers.head? := by
  exact (if_neg h).trans (if_neg fun hnil => hne (List.isEmpty_iff.mp hnil))

theorem selectedIndex_of_not_quorate {sources : List (Source R)} (h : ¬Quorate sources) :
    selectedIndex sources = none := if_pos (not_not.mp h)

theorem selectedIndex_of_nil {sources : List (Source R)} (h : estimates sources = []) :
    selectedIndex sources = none := by
  unfold selectedIndex
  dsimp only
  rw [h]
  split <;> rfl

theorem map_fst_living (sources : List (Source R)) :
    (living sources).map Prod.fst = sources.filter Source.alive := by
  rw [living]
  conv_rhs => rw [← List.zipIdx_map_fst 0 sources]
  rw [List.filter_map]
  rfl

theorem length_estimates (sources : List (Source R)) :
    (estimates sources).length = sources.countP fun s => s.hasEstimate := by
  rw [estimates, List.length_map, ← List.countP_eq_length_filter]
  conv_rhs => rw [← List.zipIdx_map_fst 0 sources, List.countP_map]
  rfl

/-- The answering are those heard and the living not heard. -/
theorem countP_answering (sources : List (Source R)) :
    (sources.countP fun s => s.hasEstimate || s.alive) =
      (sources.countP fun s => s.hasEstimate) +
        sources.countP fun s => s.alive && !s.hasEstimate := by
  induction sources with
  | nil => rfl
  | cons s sources ih =>
    simp only [List.countP_cons]
    rw [ih]
    cases s.hasEstimate <;> cases s.alive <;> simp <;> omega

/-- A quorum fails when the heard do not outnumber the living not heard. -/
theorem selectedIndex_of_few {sources : List (Source R)}
    (h : sources.countP (fun s => s.hasEstimate) ≤
      sources.countP fun s => s.alive && !s.hasEstimate) :
    selectedIndex sources = none := by
  have hcount := countP_answering sources
  by_cases hnil : estimates sources = []
  · exact selectedIndex_of_nil hnil
  · refine selectedIndex_of_not_quorate fun hq => hq ?_
    have hpos := List.length_pos_iff.mpr hnil
    rw [length_estimates] at hpos
    omega

/-! ## No dead source has an estimate -/

/-- The place among all of the `k`th of the living. -/
def placeOf (sources : List (Source R)) (k : Nat) : Nat :=
  ((living sources)[k]?.map Prod.snd).getD 0

theorem placeOf_eq {sources : List (Source R)} {k : Nat} {p : Source R × Nat}
    (h : (living sources)[k]? = some p) : placeOf sources k = p.2 := by
  rw [placeOf, h]
  rfl

/-- The estimates are then those of the living, under other names. -/
theorem estimates_of_harmless {sources : List (Source R)}
    (h : ∀ s ∈ sources, s.hasEstimate = true → s.alive = true) :
    estimates sources = (estimates (sources.filter Source.alive)).map
      (SourceEstimate.relabel (placeOf sources)) := by
  have hheard : (sources.zipIdx.filter fun p => p.1.hasEstimate) =
      ((living sources).zipIdx.filter fun q => q.1.1.hasEstimate).map Prod.fst := by
    calc sources.zipIdx.filter (fun p => p.1.hasEstimate)
        = (living sources).filter fun p => p.1.hasEstimate := by
          rw [living, List.filter_filter]
          refine List.filter_congr ?_
          intro p hp
          have hmem := List.fst_mem_of_mem_zipIdx hp
          cases hhas : p.1.hasEstimate with
          | false => rfl
          | true => rw [h p.1 hmem hhas, Bool.and_self]
      _ = _ := by
          conv_lhs => rw [← List.zipIdx_map_fst 0 (living sources), List.filter_map]
          rfl
  have hliving : ((sources.filter Source.alive).zipIdx.filter fun p => p.1.hasEstimate) =
      ((living sources).zipIdx.filter fun q => q.1.1.hasEstimate).map
        (Prod.map Prod.fst id) := by
    rw [← map_fst_living, List.zipIdx_map, List.filter_map]
    rfl
  rw [estimates, estimates, hheard, hliving, List.map_map, List.map_map, List.map_map]
  refine List.map_congr_left ?_
  intro q hq
  have hat := List.mem_zipIdx_iff_getElem?.mp (List.mem_of_mem_filter hq)
  show q.1.1.estimate q.1.2 = (q.1.1.estimate q.2).relabel (placeOf sources)
  rw [SourceEstimate.relabel, Source.estimate, Source.estimate, placeOf_eq hat]

/-- Neither does the quorum see a difference. -/
theorem quorate_filter {sources : List (Source R)}
    (h : ∀ s ∈ sources, s.hasEstimate = true → s.alive = true) :
    Quorate (sources.filter Source.alive) ↔ Quorate sources := by
  have hheard : (sources.filter Source.alive).countP (fun s => s.hasEstimate) =
      sources.countP fun s => s.hasEstimate := by
    rw [List.countP_filter]
    refine List.countP_congr ?_
    intro s hs
    constructor
    · intro hand
      exact (Bool.and_eq_true_iff.mp hand).1
    · intro hhas
      exact Bool.and_eq_true_iff.mpr ⟨hhas, h s hs hhas⟩
  have hanswering : (sources.filter Source.alive).countP (fun s => s.hasEstimate || s.alive) =
      sources.countP fun s => s.hasEstimate || s.alive := by
    rw [List.countP_filter]
    refine List.countP_congr ?_
    intro s hs
    constructor
    · intro hand
      exact (Bool.and_eq_true_iff.mp hand).1
    · intro hor
      rcases Bool.or_eq_true_iff.mp hor with hhas | halive
      · exact Bool.and_eq_true_iff.mpr ⟨hor, h s hs hhas⟩
      · exact Bool.and_eq_true_iff.mpr ⟨hor, halive⟩
  rw [Quorate, Quorate, hheard, hanswering]

/-- The head of the selection, named by place. -/
theorem head_bind_place {sources : List (Source R)} {i : Option Nat}
    (hi : ∀ k ∈ i, k < (living sources).length) :
    i.map (placeOf sources) = i.bind fun k => (living sources)[k]?.map Prod.snd := by
  cases i with
  | none => rfl
  | some k =>
    have hk := hi k rfl
    rw [Option.map_some, Option.bind_some, placeOf, List.getElem?_eq_getElem hk]
    rfl

theorem sameAnswer_of_harmless {sources : List (Source R)} (h : DeadHarmless sources) :
    SameAnswer sources := by
  unfold SameAnswer
  rcases h with h | hfew
  · by_cases hq : Quorate sources
    · have hq' := (quorate_filter h).mpr hq
      have hestimates := estimates_of_harmless h
      by_cases hnil : estimates (sources.filter Source.alive) = []
      · rw [hnil, List.map_nil] at hestimates
        rw [selectedIndex_of_nil hnil, selectedIndex_of_nil hestimates]
        rfl
      · rw [selectedIndex_of_quorate hq' hnil, selectedIndex_of_quorate hq, hestimates,
          Select.select_relabel, List.head?_map]
        · refine head_bind_place ?_
          intro k hk
          -- only sources of the vector are named
          obtain ⟨e, he, rfl⟩ := Select.mem_truechimers (List.mem_of_head? hk)
          obtain ⟨p, hp, rfl⟩ := List.mem_map.mp he
          have hlt := List.snd_lt_of_mem_zipIdx (List.mem_of_mem_filter hp)
          rw [← map_fst_living, List.length_map] at hlt
          exact hlt
        · rw [hestimates]
          exact fun hmap => hnil (List.map_eq_nil_iff.mp hmap)
    · rw [selectedIndex_of_not_quorate hq,
        selectedIndex_of_not_quorate fun hq' => hq ((quorate_filter h).mp hq')]
      rfl
  · -- the quorum fails on both sides
    have hfew' : (sources.filter Source.alive).countP (fun s => s.hasEstimate) ≤
        (sources.filter Source.alive).countP fun s => s.alive && !s.hasEstimate := by
      have hle : (sources.filter Source.alive).countP (fun s => s.hasEstimate) ≤
          sources.countP fun s => s.hasEstimate :=
        List.filter_sublist.countP_le
      have heq : (sources.filter Source.alive).countP (fun s => s.alive && !s.hasEstimate) =
          sources.countP fun s => s.alive && !s.hasEstimate := by
        rw [List.countP_filter]
        refine List.countP_congr ?_
        intro s _
        cases s.alive <;> cases s.hasEstimate <;> decide
      rw [heq]
      exact hle.trans hfew
    rw [selectedIndex_of_few hfew, selectedIndex_of_few hfew']
    rfl

/-! ## A dead source with an estimate -/

/-- The same flags, with estimates that agree; the dead have the better stratum. -/
def Source.agreeing (s : Source R) : Source R :=
  { s with lastOffsetS := 0, lastRootDistanceS := 1, lastStratum := if s.alive then 2 else 1 }

theorem flags_agreeing (sources : List (Source R)) :
    (sources.map Source.agreeing).map Source.flags = sources.map Source.flags := by
  rw [List.map_map]
  rfl

theorem agreeing_alive (s : Source R) : s.agreeing.alive = s.alive := rfl

/-- **A dead source is selected** where it may be. -/
theorem selectedIndex_agreeing [IsStrictOrderedRing R] {sources : List (Source R)}
    (hdead : ∃ s ∈ sources, s.hasEstimate = true ∧ s.alive = false)
    (hmany : ¬sources.countP (fun s => s.hasEstimate) ≤
      sources.countP fun s => s.alive && !s.hasEstimate) :
    ∃ i s, selectedIndex (sources.map Source.agreeing) = some i ∧
      (sources.map Source.agreeing)[i]? = some s ∧ s.alive = false := by
  have hq : Quorate (sources.map Source.agreeing) := by
    unfold Quorate
    rw [List.countP_map, List.countP_map]
    have hcount := countP_answering sources
    rintro ⟨-, hle⟩
    have hle' : sources.countP (fun s => s.hasEstimate) * 2 ≤
        sources.countP fun s => s.hasEstimate || s.alive := hle
    omega
  have hmem : ∀ e, e ∈ estimates (sources.map Source.agreeing) ↔
      ∃ (s : Source R) (i : Nat), (sources.map Source.agreeing)[i]? = some s ∧
        s.hasEstimate = true ∧ s.estimate i = e := by
    intro e
    rw [estimates, List.mem_map]
    constructor
    · rintro ⟨⟨s, i⟩, hp, rfl⟩
      obtain ⟨hz, hhas⟩ := List.mem_filter.mp hp
      exact ⟨s, i, List.mem_zipIdx_iff_getElem?.mp hz, hhas, rfl⟩
    · rintro ⟨s, i, hat, hhas, rfl⟩
      exact ⟨(s, i), List.mem_filter.mpr ⟨List.mem_zipIdx_iff_getElem?.mpr hat, hhas⟩, rfl⟩
  have hagree : ∀ (s : Source R) (i : Nat), (sources.map Source.agreeing)[i]? = some s →
      s.lastOffsetS = 0 ∧ s.lastRootDistanceS = 1 ∧
        s.lastStratum = if s.alive then 2 else 1 := by
    intro s i hat
    obtain ⟨s', -, rfl⟩ := List.mem_map.mp (List.mem_of_getElem? hat)
    exact ⟨rfl, rfl, rfl⟩
  -- the dead source is among the estimates
  obtain ⟨s₀, hs₀, hhas₀, halive₀⟩ := hdead
  obtain ⟨i₀, hi₀⟩ := List.getElem?_of_mem (List.mem_map_of_mem (f := Source.agreeing) hs₀)
  have hdeadMem : s₀.agreeing.estimate i₀ ∈ estimates (sources.map Source.agreeing) :=
    (hmem _).mpr ⟨s₀.agreeing, i₀, hi₀, hhas₀, rfl⟩
  have hne := List.ne_nil_of_mem hdeadMem
  obtain ⟨e, he, hhead, hbest⟩ := Select.select_agreeing (o := 0) (d := 1)
    (by
      intro e he
      obtain ⟨s, i, hat, -, rfl⟩ := (hmem e).mp he
      obtain ⟨ho, hd, -⟩ := hagree s i hat
      refine ⟨ho, ?_⟩
      have hsmall : (1e-9 : R) ≤ 1 := by norm_num
      rw [Select.radius, Source.estimate, hd, max_eq_left hsmall, max_eq_left hsmall])
    one_pos hne
  obtain ⟨s, i, hat, -, rfl⟩ := (hmem e).mp he
  refine ⟨i, s, ?_, hat, ?_⟩
  · rw [selectedIndex_of_quorate hq hne]
    exact hhead
  · -- its stratum is no more than the dead source's, which is 1
    have hle := hbest _ hdeadMem
    obtain ⟨-, -, hstratum⟩ := hagree s i hat
    obtain ⟨-, -, hstratum₀⟩ := hagree s₀.agreeing i₀ hi₀
    rw [Source.estimate, Source.estimate, hstratum, hstratum₀, agreeing_alive, halive₀] at hle
    cases halive : s.alive with
    | false => rfl
    | true =>
      rw [halive] at hle
      exact absurd (show 2 ≤ 1 from hle) (by decide)

/-- What the living are asked is never answered by a dead one. -/
theorem alive_of_mem_living {sources : List (Source R)} {k i : Nat} {s : Source R}
    (hk : (living sources)[k]?.map Prod.snd = some i) (hs : sources[i]? = some s) :
    s.alive = true := by
  obtain ⟨p, hp, rfl⟩ := Option.map_eq_some_iff.mp hk
  obtain ⟨hz, halive⟩ := List.mem_filter.mp (List.mem_of_getElem? hp)
  rw [List.mem_zipIdx_iff_getElem?.mp hz] at hs
  rw [← Option.some.inj hs]
  exact halive

/-- **The dead change nothing exactly when they are harmless**: the selection is that of the
living, whatever the estimates of sources with these flags, if and only if no dead source has an
estimate or the heard do not outnumber the living not heard. -/
theorem sameAnswer_iff [IsStrictOrderedRing R] (sources : List (Source R)) :
    (∀ sources' : List (Source R), sources'.map Source.flags = sources.map Source.flags →
      SameAnswer sources') ↔ DeadHarmless sources := by
  constructor
  · intro h
    by_contra hharm
    rw [DeadHarmless, not_or] at hharm
    obtain ⟨hdead, hmany⟩ := hharm
    push Not at hdead
    obtain ⟨s, hs, hhas, halive⟩ := hdead
    obtain ⟨i, s', hi, hs', halive'⟩ :=
      selectedIndex_agreeing ⟨s, hs, hhas, Bool.eq_false_of_not_eq_true halive⟩ hmany
    have hsame := h (sources.map Source.agreeing) (flags_agreeing sources)
    rw [SameAnswer, hi] at hsame
    obtain ⟨k, -, hk⟩ := Option.bind_eq_some_iff.mp hsame.symm
    have htrue := alive_of_mem_living hk hs'
    rw [halive'] at htrue
    exact absurd htrue Bool.false_ne_true
  · intro h sources' hflags
    refine sameAnswer_of_harmless ?_
    have hlen : sources'.length = sources.length := by
      simpa using congrArg List.length hflags
    have hcount : ∀ P : Bool × Nat → Bool,
        sources'.countP (fun s => P s.flags) = sources.countP fun s => P s.flags := by
      intro P
      have := congrArg (List.countP P) hflags
      rw [List.countP_map, List.countP_map] at this
      exact this
    rcases h with h | hfew
    · left
      intro s hs hhas
      have hmem : s.flags ∈ sources.map Source.flags := by
        rw [← hflags]
        exact List.mem_map_of_mem hs
      obtain ⟨s₀, hs₀, heq⟩ := List.mem_map.mp hmem
      have hhas₀ : s₀.hasEstimate = true := (congrArg Prod.fst heq).trans hhas
      have hlost : s₀.lostInARow = s.lostInARow := congrArg Prod.snd heq
      have := h s₀ hs₀ hhas₀
      rw [Source.alive, hlost] at this
      exact this
    · right
      have hheard := hcount fun f => f.1
      have hsilent := hcount fun f => decide (f.2 < unreachableAfter) && !f.1
      exact hheard.trans_le (hfew.trans hsilent.symm.le)

/-- A source heard from, beside one that never answered. -/
theorem sameAnswer_iff_two :
    SameAnswer ([{ Source.opened 0 with hasEstimate := true },
      { Source.opened 1 with lostInARow := 9 }] : List (Source ℚ)) :=
  (sameAnswer_iff _).mpr (by decide) _ rfl

/-- A source of stratum 1 that answered and then died, beside one of stratum 2 that answers. -/
def deadAndLiving : List (Source ℚ) :=
  [{ Source.opened 0 with
      hasEstimate := true, lostInARow := 4, lastStratum := 1, lastRootDistanceS := 1 },
    { Source.opened 0 with hasEstimate := true, lastStratum := 2, lastRootDistanceS := 1 }]

/-- The dead one is selected still, and without it the living one is. -/
theorem not_sameAnswer : selectedIndex deadAndLiving = some 0 ∧
    selectedIndex (deadAndLiving.drop 1) = some 0 ∧ ¬SameAnswer deadAndLiving := by
  refine ⟨?_, ?_, ?_⟩ <;> decide +kernel

end RustyTime
