import Mathlib.Algebra.Order.Ring.Rat
import Mathlib.Tactic.FieldSimp
import Mathlib.Tactic.Linarith
import Mathlib.Tactic.NormNum
import Mathlib.Tactic.Ring
import RustyTime.Properties.Client
import RustyTime.Spec.ClientLedger

/-!
# How much of its budget a drain delivers

`drain_completes_at` counts the remaining budget from the last plan, while `settle_drain` takes
what it books off that budget at every observation.

* `Draws` — the invariant: budget, rate and anchors of the running drain
* `run_draws` — every run keeps it
* `undisturbed_iff` — a drain is delivered in full exactly when nothing is observed after the
  instant of its anchor
-/

namespace RustyTime.MultiController

set_option linter.unusedSectionVars false

variable {R : Type} [Field R] [LinearOrder R] {c : MultiController R} {std : StdFloat R}
  {monoS : R}

/-! ## What the operations do to the drain -/

/-- A drain is running. -/
def Running (c : MultiController R) : Prop := c.drainPpm ≠ 0 ∧ 0 < c.drainRemainingS

/-- The fields of the drain are the same. -/
structure SameDrain (c c' : MultiController R) : Prop where
  drainPpm : c'.drainPpm = c.drainPpm
  drainRemainingS : c'.drainRemainingS = c.drainRemainingS
  lastPlanMonoS : c'.lastPlanMonoS = c.lastPlanMonoS
  drainBookedUntil : c'.drainBookedUntil = c.drainBookedUntil

theorem drainCompletesAt_eq {completesAt : R} (h : c.drainCompletesAt = some completesAt) :
    c.Running ∧ ∃ last, c.lastPlanMonoS = some last ∧
      completesAt = last + c.drainRemainingS / (|c.drainPpm| * 1e-6) := by
  unfold drainCompletesAt at h
  split at h
  · exact absurd h.symm (Option.some_ne_none _)
  · next last hlast =>
    split at h
    · exact absurd h.symm (Option.some_ne_none _)
    · next hrunning =>
      rw [not_or, not_le] at hrunning
      exact ⟨hrunning, last, hlast, (Option.some.inj h).symm⟩

/-! ## The invariant -/

/-- What a running drain has left, by the plan it belongs to. `since` is when it started. -/
structure DrawsFrom (c : MultiController R) (g : DrainLog R) (p : DrainPlan R)
    (since last booked now : R) : Prop where
  current : g.current = some p
  instant : g.now = some now
  lastPlanMonoS : c.lastPlanMonoS = some last
  drainBookedUntil : c.drainBookedUntil = some booked
  sinceLast : since ≤ last
  lastBooked : last ≤ booked
  bookedNow : booked ≤ now
  delivered : p.delivered = c.drainPpm * 1e-6 * (now - since)
  budget : p.budget = |c.drainPpm| * 1e-6 * (booked - since) + c.drainRemainingS

def Draws (c : MultiController R) (g : DrainLog R) : Prop :=
  c.Running → ∃ p since last booked now, DrawsFrom c g p since last booked now

/-- What the last operation left, for the one that may follow it. -/
def AfterDraw (c : MultiController R) (g : DrainLog R) : Option (Op R) → Prop
  | some (.observe _ monoNowS _) => g.now = some monoNowS ∧
      ∀ booked ∈ c.drainBookedUntil, booked = monoNowS
  | some (.steer _ _ _) => c.unapplied.isSome = true ∧
      Draws c.revertLastPlan.1 ⟨g.now, g.before, none⟩
  | _ => True

theorem deliveredAt_eq {p : DrainPlan R} {instant : Option R} {now : R}
    (h : instant = some now) (t : R) :
    p.deliveredAt c instant t = p.delivered + c.drainPpm * 1e-6 * (t - now) := by
  subst h
  rfl

section Steps

variable [IsStrictOrderedRing R] {g : DrainLog R}

theorem abs_rate (r x : R) (hx : 0 ≤ x) : |r * 1e-6 * x| = |r| * 1e-6 * x := by
  have hmicro : (0 : R) ≤ 1e-6 := by norm_num
  rw [abs_mul, abs_mul, abs_of_nonneg hmicro, abs_of_nonneg hx]

theorem observe_draws (index : Nat) (sample : Sample R) (h : Draws c g)
    (hle : ∀ now ∈ g.now, now ≤ monoS) :
    Draws (c.observe std index monoS sample).1 (g.advance c monoS) := by
  have hppm : (c.observe std index monoS sample).1.drainPpm = c.drainPpm := observe_drainPpm
  have hrem' : (c.observe std index monoS sample).1.drainRemainingS =
      if c.drained monoS ≠ 0 then max (c.drainRemainingS - |c.drained monoS|) 0
      else c.drainRemainingS := observe_drainRemainingS
  intro hrunning'
  have hrunning : c.Running := by
    refine ⟨hppm ▸ hrunning'.1, ?_⟩
    have hpos := hrunning'.2
    rw [hrem'] at hpos
    split at hpos
    · rcases lt_max_iff.mp hpos with h | h
      · linarith [abs_nonneg (c.drained monoS)]
      · exact absurd h (lt_irrefl 0)
    · exact hpos
  obtain ⟨p, since, last, booked, now, hp⟩ := h hrunning
  have hnow := hle now hp.instant
  have hbm := hp.bookedNow.trans hnow
  have hdrained := drained_eq hp.drainBookedUntil hbm
  -- the budget is never capped while the drain runs on
  have hrem : (c.observe std index monoS sample).1.drainRemainingS =
      c.drainRemainingS - |c.drained monoS| := by
    have hpos := hrunning'.2
    rw [hrem'] at hpos ⊢
    split at hpos
    · next hne =>
      rw [if_pos hne]
      refine max_eq_left ?_
      rcases lt_max_iff.mp hpos with h | h
      · exact h.le
      · exact absurd h (lt_irrefl 0)
    · next hzero =>
      rw [if_neg hzero, not_not.mp hzero, abs_zero, sub_zero]
  refine ⟨⟨p.budget, p.deliveredAt c g.now monoS⟩, since, last, monoS, monoS, ?_⟩
  refine ⟨?_, rfl, observe_lastPlanMonoS.trans hp.lastPlanMonoS, ?_, hp.sinceLast,
    hp.lastBooked.trans hbm, le_refl _, ?_, ?_⟩
  · rw [DrainLog.advance, hp.current]
    rfl
  · rw [observe_drainBookedUntil, hp.drainBookedUntil]
    rfl
  · rw [deliveredAt_eq hp.instant, hppm, hp.delivered]
    ring
  · dsimp only
    rw [hp.budget, hrem, hppm, hdrained, abs_rate _ _ (sub_nonneg.mpr hbm)]
    ring

theorem steer_draws (est : Estimate R) (leapPending : Bool) (h : Draws c g)
    (hafter : g.now = some monoS ∧ ∀ booked ∈ c.drainBookedUntil, booked = monoS) :
    Draws (c.steer est monoS leapPending).1 (g.record c (.steer est monoS leapPending)) ∧
      AfterDraw (c.steer est monoS leapPending).1 (g.record c (.steer est monoS leapPending))
        (some (.steer est monoS leapPending)) := by
  refine ⟨?_, rfl, ?_⟩
  · intro _
    refine ⟨_, monoS, monoS, monoS, monoS, rfl, rfl, rfl, rfl, le_refl _, le_refl _, le_refl _,
      ?_, ?_⟩
    · rw [sub_self, mul_zero]
    · rw [sub_self, mul_zero, zero_add]
      rfl
  · -- the refused plan's predecessor, anchored anew
    intro hrunning
    obtain ⟨p, since, last, booked, now, hp⟩ := h hrunning
    obtain rfl : now = monoS := Option.some.inj (hp.instant.symm.trans hafter.1)
    obtain rfl : booked = now := hafter.2 booked hp.drainBookedUntil
    refine ⟨⟨p.budget, p.deliveredAt c g.now booked⟩, since, booked, booked, booked, ?_, rfl, rfl,
      rfl, hp.sinceLast.trans hp.lastBooked, le_refl _, le_refl _, ?_, ?_⟩
    · show (g.advance c booked).current = _
      rw [DrainLog.advance, hp.current]
      rfl
    · show p.deliveredAt c g.now booked = c.drainPpm * 1e-6 * (booked - since)
      rw [deliveredAt_eq hp.instant, hp.delivered, sub_self, mul_zero, add_zero]
    · exact hp.budget

theorem pollDrain_draws (h : Draws c g) (hle : ∀ now ∈ g.now, now ≤ monoS) :
    Draws (c.pollDrain monoS).1 (g.advance c monoS) := by
  rcases c.pollDrain_cases monoS with hsame | ⟨-, ⟨last, -, hretired⟩, -⟩
  · rw [hsame]
    intro hrunning
    obtain ⟨p, since, last, booked, now, hp⟩ := h hrunning
    refine ⟨⟨p.budget, p.deliveredAt c g.now monoS⟩, since, last, booked, monoS, ?_, rfl,
      hp.lastPlanMonoS, hp.drainBookedUntil, hp.sinceLast, hp.lastBooked,
      hp.bookedNow.trans (hle now hp.instant), ?_, hp.budget⟩
    · rw [DrainLog.advance, hp.current]
      rfl
    · show p.deliveredAt c g.now monoS = _
      rw [deliveredAt_eq hp.instant, hp.delivered]
      ring
  · intro hrunning
    rw [hretired] at hrunning
    exact absurd rfl hrunning.1

/-- One operation keeps the invariant. -/
theorem step_draws (std : StdFloat R) {previous : Option (Op R)} {op : Op R} (h : Draws c g)
    (hafter : AfterDraw c g previous) (hfollow : op.MayFollow previous)
    (hle : ∀ now ∈ g.now, ∀ monoS, op.monoS? = some monoS → now ≤ monoS) :
    Draws (step std c op) (g.record c op) ∧
      AfterDraw (step std c op) (g.record c op) (some op) := by
  cases op with
  | observe index monoNowS sample =>
    refine ⟨observe_draws index sample h fun now hnow => hle now hnow monoNowS rfl, rfl, ?_⟩
    intro booked hbooked
    rw [Option.mem_def, step, observe_drainBookedUntil] at hbooked
    obtain ⟨_, -, rfl⟩ := Option.map_eq_some_iff.mp hbooked
    rfl
  | steer est monoNowS leapPending =>
    obtain ⟨index, sample, rfl⟩ := hfollow
    exact steer_draws est leapPending h hafter
  | pollDrain monoNowS =>
    exact ⟨pollDrain_draws h fun now hnow => hle now hnow monoNowS rfl, trivial⟩
  | confirmLastPlan =>
    refine ⟨fun hrunning => ?_, trivial⟩
    obtain ⟨p, since, last, booked, now, hp⟩ := h hrunning
    exact ⟨p, since, last, booked, now, hp.current, hp.instant, hp.lastPlanMonoS,
      hp.drainBookedUntil, hp.sinceLast, hp.lastBooked, hp.bookedNow, hp.delivered, hp.budget⟩
  | revertLastPlan =>
    obtain ⟨est, monoNowS, leap, rfl⟩ := hfollow
    obtain ⟨hunapplied, hdraws⟩ := hafter
    refine ⟨?_, trivial⟩
    rw [DrainLog.record, if_pos hunapplied]
    exact hdraws

theorem record_now (op : Op R) : (g.record c op).now = op.monoS?.or g.now := by
  cases op with
  | revertLastPlan =>
    rw [DrainLog.record]
    split <;> rfl
  | _ => rfl

/-- Every run keeps the invariant. -/
theorem run_draws (std : StdFloat R) {previous : Option (Op R)} {ops : List (Op R)} (h : Draws c g)
    (hafter : AfterDraw c g previous) (hcalled : WellCalled previous ops)
    (htimed : WellTimed g.now ops) : Draws (run std c ops) (drainLogFrom std c g ops) := by
  induction ops generalizing c g previous with
  | nil => exact h
  | cons op ops ih =>
    obtain ⟨hfollow, hcalled⟩ := hcalled
    obtain ⟨hdraws, hafter'⟩ := step_draws std h hafter hfollow
      (fun now hnow monoS hop => wellTimed_le htimed hnow hop)
    refine ih hdraws hafter' hcalled ?_
    rw [record_now]
    exact wellTimed_tail htimed

/-! ## Observing while a drain runs -/

/-- Observations of sources: the index, the instant and the sample. -/
def observations (obs : List (Nat × R × Sample R)) : List (Op R) :=
  obs.map fun o => .observe o.1 o.2.1 o.2.2

/-- The drain that runs in `c` is as it was before the observations: it completes when it would
have, and polled then is retired with its whole budget delivered. -/
structure Undisturbed (c : MultiController R) (g : DrainLog R) (completesAt : R) : Prop where
  completes : c.drainCompletesAt = some completesAt
  retired : (c.pollDrain completesAt).2 = some (.slew c.freqCmdPpm 0 0) ∧
    (c.pollDrain completesAt).1.drainPpm = 0
  delivered : ∃ p, g.current = some p ∧ |p.deliveredAt c g.now completesAt| = p.budget

/-- Observations at the instant of the last booking leave the drain alone. -/
theorem observations_sameDrain {obs : List (Nat × R × Sample R)} {booked : R}
    (hbooked : c.drainBookedUntil = some booked) (hobs : ∀ o ∈ obs, o.2.1 = booked) :
    SameDrain c (run std c (observations obs)) := by
  induction obs generalizing c with
  | nil => exact ⟨rfl, rfl, rfl, rfl⟩
  | cons o obs ih =>
    obtain rfl := hobs o List.mem_cons_self
    have hb : (c.observe std o.1 o.2.1 o.2.2).1.drainBookedUntil = some o.2.1 := by simp [hbooked]
    have hrem : (c.observe std o.1 o.2.1 o.2.2).1.drainRemainingS = c.drainRemainingS := by
      rw [observe_drainRemainingS, drained_eq hbooked le_rfl, sub_self, mul_zero]
      exact if_neg fun h => h rfl
    obtain ⟨hppm', hrem', hlast', hb'⟩ := ih hb fun o' ho' => hobs o' (List.mem_cons_of_mem o ho')
    exact ⟨hppm'.trans observe_drainPpm, hrem'.trans hrem, hlast'.trans observe_lastPlanMonoS,
      hb'.trans (hb.trans hbooked.symm)⟩

/-- Observations keep the anchor of the plan, and book up to the last of them. -/
theorem observations_booked (std : StdFloat R) {obs : List (Nat × R × Sample R)} {booked : R}
    (hbooked : c.drainBookedUntil = some booked)
    (hobs : (booked :: obs.map fun o => o.2.1).Pairwise (· ≤ ·)) :
    (run std c (observations obs)).lastPlanMonoS = c.lastPlanMonoS ∧
      ∃ booked', (run std c (observations obs)).drainBookedUntil = some booked' ∧
        booked ≤ booked' ∧ ∀ o ∈ obs, booked ≤ o.2.1 ∧ o.2.1 ≤ booked' := by
  induction obs generalizing c booked with
  | nil => exact ⟨rfl, booked, hbooked, le_refl _, fun o ho => absurd ho List.not_mem_nil⟩
  | cons o obs ih =>
    have hb : (c.observe std o.1 o.2.1 o.2.2).1.drainBookedUntil = some o.2.1 := by simp [hbooked]
    rw [List.map_cons, List.pairwise_cons] at hobs
    have hle := hobs.1 o.2.1 List.mem_cons_self
    obtain ⟨hlast, booked', hb', hle', hrest⟩ := ih hb hobs.2
    refine ⟨hlast.trans observe_lastPlanMonoS, booked', hb', hle.trans hle', ?_⟩
    intro o' ho'
    rcases List.mem_cons.mp ho' with rfl | hmem
    · exact ⟨hle, hle'⟩
    · exact ⟨hle.trans (hrest o' hmem).1, (hrest o' hmem).2⟩

/-- A running drain is retired with its budget delivered, no more and no less, exactly when it
was last booked at its anchor. -/
theorem undisturbed_iff_booked (h : Draws c g) {completesAt : R}
    (hcompletes : c.drainCompletesAt = some completesAt) :
    Undisturbed c g completesAt ↔ c.drainBookedUntil = c.lastPlanMonoS := by
  obtain ⟨hrunning, last', hlast', rfl⟩ := drainCompletesAt_eq hcompletes
  obtain ⟨p, since, last, booked, now, hp⟩ := h hrunning
  obtain rfl : last' = last := Option.some.inj (hlast'.symm.trans hp.lastPlanMonoS)
  have hrate : (0 : R) < |c.drainPpm| * 1e-6 :=
    mul_pos (abs_pos.mpr hrunning.1) (by norm_num)
  have hquot : 0 ≤ c.drainRemainingS / (|c.drainPpm| * 1e-6) :=
    div_nonneg hrunning.2.le hrate.le
  have hsince : since ≤ last' + c.drainRemainingS / (|c.drainPpm| * 1e-6) := by
    linarith [hp.sinceLast]
  -- all that is delivered from the plan to the completion
  have htotal : |p.deliveredAt c g.now (last' + c.drainRemainingS / (|c.drainPpm| * 1e-6))| =
      |c.drainPpm| * 1e-6 * (last' - since) + c.drainRemainingS := by
    have hsum : p.deliveredAt c g.now (last' + c.drainRemainingS / (|c.drainPpm| * 1e-6)) =
        c.drainPpm * 1e-6 * (last' + c.drainRemainingS / (|c.drainPpm| * 1e-6) - since) := by
      rw [deliveredAt_eq hp.instant, hp.delivered]
      ring
    rw [hsum, abs_rate _ _ (sub_nonneg.mpr hsince)]
    generalize |c.drainPpm| * 1e-6 = rate at hrate
    have hne := hrate.ne'
    field_simp
    ring
  constructor
  · rintro ⟨-, -, p', hp', hdelivered⟩
    obtain rfl : p' = p := Option.some.inj (hp'.symm.trans hp.current)
    rw [htotal, hp.budget, add_left_inj] at hdelivered
    have heq : last' - since = booked - since := mul_left_cancel₀ hrate.ne' hdelivered
    rw [hp.drainBookedUntil, hp.lastPlanMonoS, sub_left_injective heq]
  · intro hbooked
    rw [hp.drainBookedUntil, hp.lastPlanMonoS] at hbooked
    obtain rfl := Option.some.inj hbooked
    refine ⟨hcompletes, ?_, p, hp.current, ?_⟩
    · have hpoll : c.pollDrain (booked + c.drainRemainingS / (|c.drainPpm| * 1e-6)) =
          (c.retireDrain booked (booked + c.drainRemainingS / (|c.drainPpm| * 1e-6)),
            some (.slew c.freqCmdPpm 0 0)) := by
        unfold pollDrain
        rw [hcompletes, hp.drainBookedUntil]
        exact if_neg (lt_irrefl _)
      rw [hpoll]
      exact ⟨rfl, rfl⟩
    · rw [htotal, hp.budget]

theorem observations_wellCalled (obs : List (Nat × R × Sample R)) (previous : Option (Op R)) :
    WellCalled previous (observations obs) := by
  induction obs generalizing previous with
  | nil => trivial
  | cons o obs ih => exact ⟨trivial, ih _⟩

theorem observations_times (obs : List (Nat × R × Sample R)) :
    (observations obs).filterMap Op.monoS? = obs.map fun o => o.2.1 := by
  rw [observations, List.filterMap_map]
  exact List.filterMap_eq_map_iff_forall_eq_some.mpr fun _ _ => rfl

/--
**A running drain is delivered in full exactly when nothing is observed after the instant of its
anchor.** In every state reached by a run with a drain running, and for all observations that
follow: the drain completes when it did before them, and polled then is retired with the budget
of its plan delivered, if and only if the drain was last booked at its anchor and every
observation is at that instant.
-/
theorem undisturbed_iff (std : StdFloat R) (config : DisciplineConfig R) (sources : Nat)
    (preload : R) (ops : List (Op R)) (hcalled : WellCalled none ops) (htimed : WellTimed none ops)
    (completesAt : R)
    (hcompletes :
      (run std ((new config sources).preloadFrequency preload) ops).drainCompletesAt =
        some completesAt)
    (obs : List (Nat × R × Sample R))
    (hobs : WellTimed
      (drainLogFrom std ((new config sources).preloadFrequency preload) .empty ops).now
      (observations obs)) :
    Undisturbed
        (run std (run std ((new config sources).preloadFrequency preload) ops) (observations obs))
        (drainLogFrom std (run std ((new config sources).preloadFrequency preload) ops)
          (drainLogFrom std ((new config sources).preloadFrequency preload) .empty ops)
          (observations obs)) completesAt ↔
      (run std ((new config sources).preloadFrequency preload) ops).drainBookedUntil =
          (run std ((new config sources).preloadFrequency preload) ops).lastPlanMonoS ∧
        ∀ o ∈ obs, some o.2.1 =
          (run std ((new config sources).preloadFrequency preload) ops).lastPlanMonoS := by
  have hstart : Draws ((new config sources).preloadFrequency preload) .empty :=
    fun h => absurd rfl h.1
  have hdraws := run_draws std hstart (show AfterDraw _ _ none from trivial) hcalled htimed
  generalize run std ((new config sources).preloadFrequency preload) ops = c at *
  generalize drainLogFrom std ((new config sources).preloadFrequency preload) .empty ops = g at *
  have hdraws' := run_draws std hdraws (show AfterDraw _ _ none from trivial)
    (observations_wellCalled obs none) hobs
  obtain ⟨hrunning, -⟩ := drainCompletesAt_eq hcompletes
  obtain ⟨p, since, last, booked, now, hp⟩ := hdraws hrunning
  have htimes : (booked :: obs.map fun o => o.2.1).Pairwise (· ≤ ·) := by
    rw [WellTimed, hp.instant, observations_times] at hobs
    obtain ⟨hfirst, hrest⟩ := List.pairwise_cons.mp hobs
    exact List.pairwise_cons.mpr ⟨fun t ht => hp.bookedNow.trans (hfirst t ht), hrest⟩
  obtain ⟨hlast', booked', hbooked', hle, hbetween⟩ :=
    observations_booked std hp.drainBookedUntil htimes
  constructor
  · intro h
    -- the last booking is at the anchor, so no observation came after it
    have heq := (undisturbed_iff_booked hdraws' h.completes).mp h
    rw [hbooked', hlast', hp.lastPlanMonoS] at heq
    obtain rfl := Option.some.inj heq
    have hback : booked = booked' := le_antisymm hle hp.lastBooked
    rw [hp.drainBookedUntil, hp.lastPlanMonoS, hback]
    refine ⟨rfl, fun o ho => ?_⟩
    obtain ⟨hlo, hhi⟩ := hbetween o ho
    rw [le_antisymm hhi (hback ▸ hlo)]
  · rintro ⟨hanchored, hall⟩
    rw [hp.drainBookedUntil, hp.lastPlanMonoS] at hanchored
    obtain rfl := Option.some.inj hanchored
    have hsame : SameDrain c (run std c (observations obs)) := by
      refine observations_sameDrain hp.drainBookedUntil ?_
      intro o ho
      have := hall o ho
      rw [hp.lastPlanMonoS] at this
      exact Option.some.inj this
    have hcompletes' : (run std c (observations obs)).drainCompletesAt = some completesAt := by
      rw [← hcompletes]
      unfold drainCompletesAt
      rw [hsame.drainPpm, hsame.drainRemainingS, hsame.lastPlanMonoS]
    refine (undisturbed_iff_booked hdraws' hcompletes').mpr ?_
    rw [hsame.drainBookedUntil, hsame.lastPlanMonoS, hp.drainBookedUntil, hp.lastPlanMonoS]

end Steps

/-- A plan at 0 that drains half a second from two sources. -/
def halfSecond : List (Op ℚ) :=
  [.observe 0 0 ⟨0, 1 / 2, 1 / 10, 0⟩, .steer ⟨1 / 2, none, 1 / 20, 1⟩ 0 false, .confirmLastPlan]

/-- The other source observed at the instant of the plan: all of the half second is delivered. -/
theorem undisturbed_together :
    Undisturbed
      (run ⟨id, id, fun _ _ => none⟩
        (run ⟨id, id, fun _ _ => none⟩ ((new .default 2).preloadFrequency 0) halfSecond)
        (observations [(1, 0, ⟨0, 1 / 2, 1 / 10, 0⟩)]))
      (drainLogFrom ⟨id, id, fun _ _ => none⟩
        (run ⟨id, id, fun _ _ => none⟩ ((new .default 2).preloadFrequency 0) halfSecond)
        (drainLogFrom ⟨id, id, fun _ _ => none⟩ ((new .default 2).preloadFrequency 0) .empty
          halfSecond)
        (observations [(1, 0, ⟨0, 1 / 2, 1 / 10, 0⟩)])) (500000 / 83333) :=
  (undisturbed_iff ⟨id, id, fun _ _ => none⟩ .default 2 0 halfSecond
    ⟨trivial, ⟨_, _, rfl⟩, trivial, trivial⟩ (by unfold WellTimed; decide +kernel)
    (500000 / 83333) (by decide +kernel) [(1, 0, ⟨0, 1 / 2, 1 / 10, 0⟩)]
    (by unfold WellTimed; decide +kernel)).mpr ⟨by decide +kernel, by decide +kernel⟩

/-- The other source observed at 4 s brings the completion forward, from 6 s to 2 s. -/
theorem not_undisturbed :
    (run ⟨id, id, fun _ _ => none⟩ ((new .default 2).preloadFrequency 0)
        halfSecond).drainCompletesAt = some (500000 / 83333) ∧
      (run ⟨id, id, fun _ _ => none⟩
        (run ⟨id, id, fun _ _ => none⟩ ((new .default 2).preloadFrequency 0) halfSecond)
        (observations [(1, 4, ⟨4, 1 / 2, 1 / 10, 0⟩)])).drainCompletesAt =
          some (166668 / 83333) ∧
      ¬Undisturbed
        (run ⟨id, id, fun _ _ => none⟩
          (run ⟨id, id, fun _ _ => none⟩ ((new .default 2).preloadFrequency 0) halfSecond)
          (observations [(1, 4, ⟨4, 1 / 2, 1 / 10, 0⟩)]))
        (drainLogFrom ⟨id, id, fun _ _ => none⟩
          (run ⟨id, id, fun _ _ => none⟩ ((new .default 2).preloadFrequency 0) halfSecond)
          (drainLogFrom ⟨id, id, fun _ _ => none⟩ ((new .default 2).preloadFrequency 0) .empty
            halfSecond)
          (observations [(1, 4, ⟨4, 1 / 2, 1 / 10, 0⟩)])) (500000 / 83333) := by
  refine ⟨by decide +kernel, by decide +kernel, ?_⟩
  intro h
  have hcompletes := h.completes
  revert hcompletes
  decide +kernel

end RustyTime.MultiController
