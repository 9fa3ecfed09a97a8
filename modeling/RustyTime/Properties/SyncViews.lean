import RustyTime.Spec.Sync
import Mathlib.Data.Rat.Floor
import Mathlib.Tactic.Linarith
import Mathlib.Tactic.NormNum

/-!
# What the sync loop vouches for

* `poll_reports` — one poll leaves both published views, or publishes one plan
* `run_vouches` — over every run, the views say what the latest plans bear out
-/

namespace RustyTime

set_option linter.unusedSectionVars false

variable {R : Type} [Field R] [LinearOrder R] [FloorRing R]

namespace SyncLoop

variable {opts : SyncOptions R} {std : StdFloat R} {nominalTickUs : Int}

/-! ## What leaves the published views alone -/

/-- The control socket's view and the LAN's are the same. -/
structure SameViews (s s' : SyncLoop R) : Prop where
  tracking : s'.tracking = s.tracking
  served : s'.served = s.served
  servedSyncedAt : s'.servedSyncedAt = s.servedSyncedAt

theorem SameViews.refl (s : SyncLoop R) : SameViews s s := ⟨rfl, rfl, rfl⟩

theorem retire_views (s : SyncLoop R) (monoS : R) (ok : Bool) :
    SameViews s (s.retire opts nominalTickUs monoS ok).1 ∧
      (s.retire opts nominalTickUs monoS ok).2.bind Deed.decision = none := by
  obtain ⟨_, _, _, deed, heq, hnone⟩ := retire_eq opts nominalTickUs s monoS ok
  rw [heq]
  exact ⟨⟨rfl, rfl, rfl⟩, hnone⟩

theorem holdIfNoMajority_views {s : SyncLoop R} {selected : Option Nat} {ok : Bool} :
    SameViews s (s.holdIfNoMajority opts nominalTickUs selected ok).1 ∧
      (s.holdIfNoMajority opts nominalTickUs selected ok).2.bind Deed.decision = none := by
  obtain ⟨_, _, deed, heq, hnone⟩ := holdIfNoMajority_eq opts nominalTickUs s selected ok
  rw [heq]
  exact ⟨⟨rfl, rfl, rfl⟩, hnone⟩

theorem commit_views {s : SyncLoop R} {command : ClockCommand R} {ok : Bool} :
    SameViews s (s.commit opts nominalTickUs command ok).1 := by
  unfold commit
  split
  · exact .refl s
  · split <;> exact ⟨rfl, rfl, rfl⟩

/-- The driver's answer to a plan is the driver's own, and there is none in a dry run. -/
theorem commit_answer {s : SyncLoop R} {command : ClockCommand R} {ok : Bool} :
    (s.commit opts nominalTickUs command ok).2 = if opts.dryRun then none else some ok := by
  unfold commit
  split
  · rfl
  · split
    · next hok => rw [hok]
    · next hok => rw [Bool.eq_false_of_not_eq_true hok]

/-! ## What a published plan makes of them -/

/-- One above the source, and 16 at most: the additions saturate first. -/
theorem servedStratum (stratum : UInt8) :
    (min (if stratum = 255 then 255 else stratum + 1) stratumUnsynchronized).toNat =
      min 16 (stratum.toNat + 1) := by
  have hlt := stratum.toNat_lt
  have hle : ∀ a b : UInt8, (min a b).toNat = min a.toNat b.toNat := by
    intro a b
    show (if a ≤ b then a else b).toNat = _
    split
    · next h => exact (min_eq_left (UInt8.le_iff_toNat_le.mp h)).symm
    · next h =>
      have hba : ¬a.toNat ≤ b.toNat := fun hab => h (UInt8.le_iff_toNat_le.mpr hab)
      exact (min_eq_right (Nat.le_of_not_le hba)).symm
  rw [hle]
  split
  · next h => rw [h]; rfl
  · next h =>
    have hne : stratum.toNat ≠ 255 := fun hn => h (UInt8.toNat_inj.mp hn)
    have hadd : (stratum + 1).toNat = stratum.toNat + 1 := by
      rw [UInt8.toNat_add]
      exact Nat.mod_eq_of_lt (by simp only [UInt8.toNat_one]; omega)
    rw [hadd, min_comm]
    rfl

/-- The views after `d` has been published. -/
structure Publishes (opts : SyncOptions R) (s s' : SyncLoop R) (d : Decision R) (doneS : R) :
    Prop where
  doneS : d.doneS = doneS
  tracking : s'.tracking.synchronized = true ↔ d.Steered
  report : ∃ synchronized offsetS freqPpm errorBoundS pollIntervalS, s'.tracking =
    TrackingState.publish synchronized offsetS freqPpm errorBoundS pollIntervalS d.doneS
  served : s'.served = s.served ∧ s'.servedSyncedAt = s.servedSyncedAt ∨
    d.Steered ∧ s'.servedSyncedAt = some d.doneS ∧
      ∃ v, s'.served = some v ∧ v.stratum.toNat = min 16 (d.stratum.toNat + 1)
  dryRun : opts.dryRun = true → d.answer = none

/-- Only a served view follows the source, and only where its address is known. -/
theorem serve_cases (s : SyncLoop R) (source : Source R) (p : Poll R) :
    s.serve source p = s ∨
      (s.serve source p).servedSyncedAt = some p.doneS ∧
        (s.serve source p).tracking = s.tracking ∧
        ∃ v, (s.serve source p).served = some v ∧
          v.stratum.toNat = min 16 (source.lastStratum.toNat + 1) := by
  unfold serve
  split
  · exact .inr ⟨rfl, rfl, _, rfl, servedStratum _⟩
  · exact .inl rfl

/-- The plan of one step, as it is put on record. -/
def decisionOf (index : Nat) (source : Source R) (step : ControllerStep R) (answer : Option Bool)
    (p : Poll R) : Decision R :=
  { index := index, stratum := source.lastStratum, command := step.plan.command
    verdict := step.verdict, answer := answer, doneS := p.doneS }

theorem publish_publishes {s : SyncLoop R} {index : Nat} {source : Source R}
    {step : ControllerStep R} {answer : Option Bool} {p : Poll R}
    (hdry : opts.dryRun = true → answer = none) :
    Publishes opts s (s.publish source step answer p)
      (decisionOf index source step answer p) p.doneS := by
  have hsteered : (answer == some true && step.verdict.isAccepted) = true ↔
      (decisionOf index source step answer p).Steered := by
    rw [Bool.and_eq_true, beq_iff_eq, ChangeVerdict.isAccepted_iff, and_comm]
    rfl
  unfold publish
  dsimp only
  by_cases h : (answer == some true && step.verdict.isAccepted) = true
  · rw [if_pos h]
    -- the correction reached the clock: the LAN may follow too
    rcases serve_cases _ source p with hserve | ⟨hat, htracking, hserved⟩
    · rw [hserve]
      exact ⟨rfl, hsteered, ⟨_, _, _, _, _, rfl⟩, .inl ⟨rfl, rfl⟩, hdry⟩
    · refine ⟨rfl, ?_, ⟨_, _, _, _, _, htracking⟩, .inr ⟨hsteered.mp h, hat, hserved⟩, hdry⟩
      rw [htracking]
      exact hsteered
  · rw [if_neg h]
    exact ⟨rfl, hsteered, ⟨_, _, _, _, _, rfl⟩, .inl ⟨rfl, rfl⟩, hdry⟩

/-! ## One poll -/

/-- The views are the same and no plan is published, or one plan is. -/
def Reports (opts : SyncOptions R) (doneS : R) (s : SyncLoop R)
    (out : SyncLoop R × Option (Deed R)) : Prop :=
  SameViews s out.1 ∧ out.2.bind Deed.decision = none ∨
    ∃ d, out.2 = some (.published d) ∧ Publishes opts s out.1 d doneS

/-- What leaves the views alone first changes nothing of a report. -/
theorem Reports.of_same {s s' : SyncLoop R} {out : SyncLoop R × Option (Deed R)}
    {doneS : R} (h : Reports opts doneS s' out) (hsame : SameViews s s') :
    Reports opts doneS s out := by
  obtain ⟨ht, hv, ha⟩ := hsame
  rcases h with ⟨⟨ht', hv', ha'⟩, hnone⟩ | ⟨d, hd, hdone, htracking, hreport, hserved, hdry⟩
  · exact .inl ⟨⟨ht'.trans ht, hv'.trans hv, ha'.trans ha⟩, hnone⟩
  · refine .inr ⟨d, hd, hdone, htracking, hreport, ?_, hdry⟩
    rw [hv, ha] at hserved
    exact hserved

theorem execute_reports {s : SyncLoop R} {index : Nat} {source : Source R}
    {step : ControllerStep R} {p : Poll R} :
    Reports opts p.doneS s (s.execute opts nominalTickUs index source step p) := by
  unfold execute
  split
  · exact .inl ⟨⟨rfl, rfl, rfl⟩, rfl⟩
  · dsimp only
    split
    · -- too many refusals in a row
      exact Reports.of_same (.inl ⟨commit_views, rfl⟩) ⟨rfl, rfl, rfl⟩
    · refine Reports.of_same (Reports.of_same
        (.inr ⟨_, rfl, publish_publishes fun hdry => ?_⟩) commit_views) ⟨rfl, rfl, rfl⟩
      rw [commit_answer, if_pos hdry]

theorem choose_reports {s : SyncLoop R} {index : Nat} {source : Source R} {est : Estimate R}
    {monoS : R} {p : Poll R} :
    Reports opts p.doneS s (s.choose opts nominalTickUs index source est monoS p) := by
  unfold choose
  dsimp only
  split
  · exact execute_reports.of_same ⟨rfl, rfl, rfl⟩
  · exact Reports.of_same (.inl holdIfNoMajority_views) ⟨rfl, rfl, rfl⟩

/-- **One poll publishes at most one plan, and leaves the views alone otherwise.** -/
theorem poll_reports (s : SyncLoop R) (index : Nat) (p : Poll R) :
    Reports opts p.doneS s (s.poll opts std nominalTickUs index p) := by
  unfold poll
  split
  · exact .inl ⟨.refl s, rfl⟩
  · split
    · exact .inl ⟨.refl s, rfl⟩
    · split
      · split
        · exact .inl ⟨⟨rfl, rfl, rfl⟩, rfl⟩
        · exact choose_reports.of_same ⟨rfl, rfl, rfl⟩
      · exact .inl ⟨⟨rfl, rfl, rfl⟩, rfl⟩

end SyncLoop

/-! ## Runs -/

namespace SyncTrace

open SyncLoop

variable {opts : SyncOptions R} {std : StdFloat R} {nominalTickUs : Int}

/-- What the views owe to the plans on record. -/
structure Vouched (opts : SyncOptions R) (t : SyncTrace R) : Prop where
  tracking : t.loop.tracking.synchronized = true ↔ ∃ d, t.published.head? = some d ∧ d.Steered
  /-- The LAN's view is the unsynchronised one, or a steered plan bears it out. -/
  served : ∀ v, t.loop.served = some v →
    v = Served.unsynchronized ∨
      ∃ d ∈ t.published, d.Steered ∧ t.loop.servedSyncedAt = some d.doneS ∧
        v.stratum.toNat = min 16 (d.stratum.toNat + 1) ∧
        ∀ checkedS, t.checkedS = some checkedS → checkedS - d.doneS ≤ servedStaleAfter opts
  dryRun : opts.dryRun = true → ∀ d ∈ t.published, d.answer = none

theorem start_vouched {sources : List (Source R)} {now : R} :
    Vouched opts (start opts sources nominalTickUs now) where
  tracking := by
    constructor
    · intro h
      exact absurd h (Bool.false_ne_true)
    · rintro ⟨d, hd, -⟩
      exact absurd hd.symm (Option.some_ne_none d)
  served := by
    intro v hv
    left
    simp only [start, SyncLoop.start] at hv
    split at hv
    · exact (Option.some.inj hv).symm
    · exact absurd hv.symm (Option.some_ne_none v)
  dryRun := by
    intro _ d hd
    exact absurd hd (List.not_mem_nil)

/-- The staleness check. -/
theorem expire_vouched {t : SyncTrace R} (checkedS : R) (ht : Vouched opts t) :
    Vouched opts
      { t with loop := t.loop.expire opts checkedS, checkedS := some checkedS } := by
  have hkept : (t.loop.expire opts checkedS).tracking = t.loop.tracking := by
    obtain ⟨_, _, heq⟩ := expire_eq opts t.loop checkedS
    rw [heq]
  refine ⟨hkept ▸ ht.tracking, ?_, ht.dryRun⟩
  intro v hv
  dsimp only at hv ⊢
  unfold expire at hv ⊢
  split at hv
  · next v' at' hserved hat =>
    split at hv
    · exact .inl (Option.some.inj hv).symm
    · next hfresh =>
      -- still fresh: the plan behind the view is the one just dated
      rcases ht.served v hv with h | ⟨d, hd, hsteered, hdone, hstratum, -⟩
      · exact .inl h
      · refine .inr ⟨d, hd, hsteered, ?_, hstratum, ?_⟩
        · rw [if_neg hfresh]
          exact hdone
        · rintro c ⟨⟩
          rw [hat] at hdone
          rw [← Option.some.inj hdone]
          exact le_trans (le_max_left _ _) (not_lt.mp hfresh)
  · next hnone =>
    rcases ht.served v hv with h | ⟨d, hd, -, hdone, -⟩
    · exact .inl h
    · exact absurd hdone (hnone v d.doneS hv)

/-- What leaves the views alone keeps what they owe. -/
theorem Vouched.of_same {t : SyncTrace R} {loop : SyncLoop R} (ht : Vouched opts t)
    (h : SameViews t.loop loop) : Vouched opts { t with loop := loop } where
  tracking := by
    rw [h.tracking]
    exact ht.tracking
  served := by
    intro v hv
    rw [h.served] at hv
    rw [h.servedSyncedAt]
    exact ht.served v hv
  dryRun := ht.dryRun

/-- A published plan: the views are its own, or still those of the plans before. -/
theorem Vouched.publish {t : SyncTrace R} {loop : SyncLoop R} {d : Decision R}
    {doneS : R} (ht : Vouched opts t) (h : Publishes opts t.loop loop d doneS)
    (hdated : d.Steered → ∀ checkedS, t.checkedS = some checkedS →
      checkedS - d.doneS ≤ servedStaleAfter opts) :
    Vouched opts { t with loop := loop, published := d :: t.published } where
  tracking := by
    rw [h.tracking, List.head?_cons]
    constructor
    · intro hd
      exact ⟨d, rfl, hd⟩
    · rintro ⟨d', hd', hsteered⟩
      rw [Option.some.inj hd']
      exact hsteered
  served := by
    intro v hv
    rcases h.served with ⟨hserved, hat⟩ | ⟨hsteered, hat, v', hv', hstratum⟩
    · rw [hserved] at hv
      rcases ht.served v hv with hun | ⟨d', hd', hrest⟩
      · exact .inl hun
      · rw [hat]
        exact .inr ⟨d', List.mem_cons_of_mem d hd', hrest⟩
    · rw [hv'] at hv
      obtain rfl := Option.some.inj hv
      exact .inr ⟨d, List.mem_cons_self, hsteered, hat, hstratum, hdated hsteered⟩
  dryRun := by
    intro hdry d' hd'
    rcases List.mem_cons.mp hd' with rfl | hmem
    · exact h.dryRun hdry
    · exact ht.dryRun hdry d' hmem

/-- One event keeps what the views owe. -/
theorem step_vouched [IsStrictOrderedRing R] {t : SyncTrace R} {ev : SyncEvent R}
    (ht : Vouched opts t)
    (hdone : ∀ checkedS ∈ t.checkedS, ∀ doneS ∈ ev.doneS, checkedS ≤ doneS) :
    Vouched opts (t.step opts std nominalTickUs ev) := by
  unfold step
  split
  · exact ht
  · next hexited =>
    dsimp only
    unfold SyncLoop.step
    rw [if_neg hexited]
    cases ev with
    | head checkedS monoS ok =>
      obtain ⟨hsame, hnone⟩ := retire_views (t.loop.expire opts checkedS) monoS ok
      dsimp only
      rw [hnone]
      exact (expire_vouched checkedS ht).of_same hsame
    | poll index p =>
      dsimp only
      rcases poll_reports t.loop index p with ⟨hsame, hnone⟩ | ⟨d, hd, hpublishes⟩
      · rw [hnone]
        exact ht.of_same hsame
      · rw [hd]
        refine ht.publish hpublishes ?_
        intro _ checkedS hchecked
        have hle := hdone checkedS hchecked p.doneS rfl
        rw [hpublishes.doneS]
        have hstale : 0 ≤ servedStaleAfter opts := by
          have htwo : (0 : R) < 2.0 := by norm_num
          exact mul_nonneg (by norm_num) (zpow_pos htwo _).le
        linarith

theorem run_vouched [IsStrictOrderedRing R] (evs : List (SyncEvent R)) {t : SyncTrace R}
    (ht : Vouched opts t) (htimed : SyncEvent.WellTimed evs)
    (hdone : ∀ ev ∈ evs, ∀ checkedS ∈ t.checkedS, ∀ doneS ∈ ev.doneS, checkedS ≤ doneS) :
    Vouched opts (t.run opts std nominalTickUs evs) := by
  induction evs generalizing t with
  | nil => exact ht
  | cons ev evs ih =>
    have hpair := List.pairwise_cons.mp htimed
    rw [run, List.foldl_cons]
    refine ih (step_vouched ht (hdone ev List.mem_cons_self)) hpair.2 ?_
    intro ev' hev' checkedS hchecked doneS hdoneS
    -- the latest check is this event's, or the one before it
    have hcases : checkedS ∈ ev.checkedS ∨ checkedS ∈ t.checkedS := by
      unfold step at hchecked
      split at hchecked
      · exact .inr hchecked
      · cases ev with
        | head c m ok => exact .inl hchecked
        | poll index p => exact .inr hchecked
    rcases hcases with h | h
    · exact hpair.1 ev' hev' checkedS h doneS hdoneS
    · exact hdone ev' (List.mem_cons_of_mem ev hev') checkedS h doneS hdoneS

/-- **The daemon never vouches for a clock it is not steering.** The LAN's view has a stratum
below 16 or a synchronised leap only after a plan that was accepted and applied, no longer than
four maximum poll intervals before the latest staleness check, and its stratum is then one above
that plan's source. The control socket's view is synchronised exactly when the latest plan
published was accepted and applied, which none is in a dry run. -/
theorem run_vouches [IsStrictOrderedRing R] (opts : SyncOptions R) (std : StdFloat R)
    (nominalTickUs : Int) (sources : List (Source R)) (now : R) (evs : List (SyncEvent R))
    (htimed : SyncEvent.WellTimed evs) :
    (∀ v, ((start opts sources nominalTickUs now).run opts std nominalTickUs evs).loop.served =
        some v → v.stratum < 16 ∨ v.upstream.leap ≠ .unsynchronized →
      ∃ d ∈ ((start opts sources nominalTickUs now).run opts std nominalTickUs evs).published,
        d.Steered ∧ v.stratum.toNat = min 16 (d.stratum.toNat + 1) ∧
        ∀ checkedS,
          ((start opts sources nominalTickUs now).run opts std nominalTickUs evs).checkedS =
            some checkedS → checkedS - d.doneS ≤ 4 * 2 ^ opts.discipline.maxPoll) ∧
      (((start opts sources nominalTickUs now).run opts std
          nominalTickUs evs).loop.tracking.synchronized = true ↔
        ∃ d, ((start opts sources nominalTickUs now).run opts std
          nominalTickUs evs).published.head? = some d ∧ d.Steered) ∧
      (opts.dryRun = true →
        ∀ d ∈ ((start opts sources nominalTickUs now).run opts std nominalTickUs evs).published,
          ¬d.Steered) := by
  have ht : Vouched opts
      ((start opts sources nominalTickUs now).run opts std nominalTickUs evs) := by
    refine run_vouched evs start_vouched htimed ?_
    intro ev _ checkedS hchecked
    exact absurd hchecked.symm (Option.some_ne_none checkedS)
  have hstale : servedStaleAfter opts = 4 * 2 ^ opts.discipline.maxPoll := by
    unfold servedStaleAfter exp2i
    norm_num
  refine ⟨?_, ht.tracking, ?_⟩
  · intro v hv hsync
    rcases ht.served v hv with hun | ⟨d, hd, hsteered, -, hstratum, hdated⟩
    · subst hun
      rcases hsync with h | h
      · exact absurd h (UInt8.lt_irrefl 16)
      · exact absurd rfl h
    · refine ⟨d, hd, hsteered, hstratum, ?_⟩
      rw [← hstale]
      exact hdated
  · intro hdry d hd hsteered
    rw [Decision.Steered, ht.dryRun hdry d hd] at hsteered
    exact absurd hsteered.2.symm (Option.some_ne_none true)

/-- One prompt reply, steered: the control socket is told so. -/
theorem run_vouches_prompt :
    ∃ d, ((start (R := ℚ) ⟨false, .default, true, true⟩ [.opened 0] 10000 0).run
        ⟨false, .default, true, true⟩ ⟨id, id, fun _ _ => none⟩ 10000
        [.head 0 0 true, .poll 0 (.prompt 1 (some (.ahead 2 0 1000 0 1)) true)]).published.head? =
          some d ∧ d.Steered :=
  (run_vouches (R := ℚ) ⟨false, .default, true, true⟩ ⟨id, id, fun _ _ => none⟩ 10000 [.opened 0] 0
    [.head 0 0 true, .poll 0 (.prompt 1 (some (.ahead 2 0 1000 0 1)) true)]
    (by
      refine List.pairwise_pair.mpr ?_
      rintro c ⟨⟩ d ⟨⟩
      decide)).2.1.mp (by decide +kernel)

end SyncTrace

end RustyTime
