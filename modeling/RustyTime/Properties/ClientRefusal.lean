import Mathlib.Algebra.Order.Ring.Rat
import Mathlib.Data.Rat.Floor
import RustyTime.Spec.ClientLedger
import RustyTime.Spec.Plant
import RustyTime.Properties.ClientLedger
import RustyTime.Properties.Preload
import RustyTime.Properties.SyncClock

/-!
# What a refused plan leaves behind

The driver refuses a plan and `revert_last_plan` takes it back, any number of times in a row.
The controller's books are restored whole. The discipline is not: what it accumulated for a plan
that never ran stays in its frequency, and the next plan starts from there.

* `revert_steer` — a plan and its undoing are nothing to the books
* `run_refused` — nor is a row of them to the frequency in force
* `disciplined_freqPpm`, `moves_besidesFreq` — the discipline's frequency is corrected by them, and
  by the same whatever it is
* `noTrace_iff` — when the plan after them is the one that would have been made
-/

namespace RustyTime

set_option linter.unusedSectionVars false

variable {R : Type} [Field R] [LinearOrder R]

namespace MultiController

variable {c : MultiController R} {std : StdFloat R}

/-- In a row of refusals every plan made is taken back at once. -/
def RefusedInARow : List (Op R) → Prop
  | [] => True
  | .steer _ _ _ :: .revertLastPlan :: ops => RefusedInARow ops
  | .steer _ _ _ :: _ => False
  | .revertLastPlan :: _ => False
  | _ :: ops => RefusedInARow ops

/-- The registers with all they store, the commanded frequency and the drain. -/
structure SameBooks (c c' : MultiController R) : Prop where
  registers : c'.registers = c.registers
  freqCmdPpm : c'.freqCmdPpm = c.freqCmdPpm
  drainPpm : c'.drainPpm = c.drainPpm
  drainRemainingS : c'.drainRemainingS = c.drainRemainingS

/-- The refused plans of a run left no trace: the books after each are those before it, and
the plan that follows, which measured `fm`, commands `fm` on top of the frequency that was in
force before them. -/
structure NoTrace (std : StdFloat R) (c : MultiController R) (refused : List (Op R))
    (est : Estimate R) (monoS : R) (leapPending : Bool) (fm : R) : Prop where
  books : ∀ before est' monoS' leapPending',
    before ++ [.steer est' monoS' leapPending', .revertLastPlan] <+: refused →
      SameBooks (run std c before)
        (run std c (before ++ [.steer est' monoS' leapPending', .revertLastPlan]))
  frequency : ∃ drainOffset drainRatePpm,
    ((run std c refused).steer est monoS leapPending).2.plan.command =
      .slew (clamp (-c.discipline.cfg.maxFreqPpm) c.discipline.cfg.maxFreqPpm
        (c.freqCmdPpm + fm)) drainOffset drainRatePpm

/-! ## The configuration stays -/

theorem steer_cfg (est : Estimate R) (monoS : R) (leapPending : Bool) :
    (c.steer est monoS leapPending).1.discipline.cfg = c.discipline.cfg := by
  unfold steer
  dsimp only
  rcases c.discipline.onEstimateWithLeap_cases est.offsetS est.freqPpm est.sdS leapPending with
    h | h | h
  · exact h.cfg
  · exact h.cfg
  · exact h.cfg

theorem revertLastPlan_discipline : c.revertLastPlan.1.discipline = c.discipline := by
  unfold revertLastPlan
  split <;> rfl

theorem run_append (ops ops' : List (Op R)) :
    run std c (ops ++ ops') = run std (run std c ops) ops' := List.foldl_append

/-! ## One refusal -/

/-- A register forgets a change that is undone. -/
theorem slewSamples_neg [IsStrictOrderedRing R] (reg : SampleRegister R)
    (tChange dfreqPpm doffset : R) :
    (reg.slewSamples tChange dfreqPpm doffset).slewSamples tChange (-dfreqPpm) (-doffset)
      = reg := by
  let live := reg.samples.drop reg.head
  let slewed := live.map (SampleRegister.slewSample tChange dfreqPpm doffset)
  have hlive : slewed.map (SampleRegister.slewSample tChange (-dfreqPpm) (-doffset)) = live := by
    simp only [slewed, SampleRegister.slewSample_eq_reexpress]
    exact reexpress_neg tChange dfreqPpm doffset live
  have htake : (reg.samples.take reg.head ++ slewed).take reg.head = reg.samples.take reg.head := by
    rcases Nat.le_total reg.head reg.samples.length with hle | hle
    · exact List.take_left' (List.length_take_of_le hle)
    · -- nothing is live
      have hnil : slewed = [] := by simp [slewed, live, hle]
      rw [hnil, List.append_nil, List.take_take, min_self]
  have hdrop : (reg.samples.take reg.head ++ slewed).drop reg.head = slewed := by
    rcases Nat.le_total reg.head reg.samples.length with hle | hle
    · exact List.drop_left' (List.length_take_of_le hle)
    · have hnil : slewed = [] := by simp [slewed, live, hle]
      rw [hnil, List.append_nil, List.drop_eq_nil_of_le (List.length_take_le _ _)]
  show { reg with samples := _ } = reg
  show { reg with samples := (reg.samples.take reg.head ++ slewed).take reg.head ++
    ((reg.samples.take reg.head ++ slewed).drop reg.head).map _ } = reg
  rw [htake, hdrop, hlive, List.take_append_drop]

/-- A plan and its undoing are nothing to the books. -/
theorem revert_steer [IsStrictOrderedRing R] (c : MultiController R) (est : Estimate R) (monoS : R)
    (leapPending : Bool) : SameBooks c (c.steer est monoS leapPending).1.revertLastPlan.1 where
  registers := by
    show (List.map _ (List.map _ c.registers)) = c.registers
    rw [List.map_map]
    exact List.map_id'' (fun reg => slewSamples_neg reg _ _ _) c.registers
  freqCmdPpm := rfl
  drainPpm := rfl
  drainRemainingS := rfl

/-! ## A row of refusals -/

theorem pollDrain_command (monoS : R) :
    (c.pollDrain monoS).1.discipline = c.discipline ∧
      (c.pollDrain monoS).1.freqCmdPpm = c.freqCmdPpm := by
  rcases c.pollDrain_cases monoS with h | ⟨-, ⟨last, -, h⟩, -⟩
  · rw [h]
    exact ⟨rfl, rfl⟩
  · rw [h]
    exact ⟨retireDrain_discipline last, retireDrain_freqCmdPpm last⟩

/-- What is in force after a row of refusals was in force before. -/
theorem run_refused [IsStrictOrderedRing R] {ops : List (Op R)} (hops : RefusedInARow ops)
    (c : MultiController R) :
    (run std c ops).freqCmdPpm = c.freqCmdPpm ∧
      (run std c ops).discipline.cfg = c.discipline.cfg := by
  induction ops using RefusedInARow.induct generalizing c with
  | case1 => exact ⟨rfl, rfl⟩
  | case2 est monoS leapPending ops ih =>
    obtain ⟨hf, hcfg⟩ := ih hops (c.steer est monoS leapPending).1.revertLastPlan.1
    refine ⟨hf.trans (revert_steer c est monoS leapPending).freqCmdPpm, hcfg.trans ?_⟩
    rw [revertLastPlan_discipline]
    exact steer_cfg est monoS leapPending
  | case3 est monoS leapPending ops hne =>
    simp only [RefusedInARow] at hops
  | case4 ops =>
    simp only [RefusedInARow] at hops
  | case5 op ops hplan hundo hother ih =>
    cases op with
    | steer est monoS leapPending => exact absurd rfl (hundo est monoS leapPending)
    | revertLastPlan => exact absurd rfl hother
    | observe index monoS sample =>
      obtain ⟨hf', hcfg⟩ := ih hops (c.observe std index monoS sample).1
      exact ⟨hf'.trans observe_freqCmdPpm, hcfg.trans (by rw [observe_discipline])⟩
    | pollDrain monoS =>
      obtain ⟨hd, hf⟩ := pollDrain_command (c := c) monoS
      obtain ⟨hf', hcfg⟩ := ih hops (c.pollDrain monoS).1
      exact ⟨hf'.trans hf, hcfg.trans (by rw [hd])⟩
    | confirmLastPlan => exact ih hops c.confirmLastPlan

/-! ## What is left of them -/

/-- The discipline after the estimates among some operations. -/
def disciplined (d : Discipline R) : List (Op R) → Discipline R
  | [] => d
  | .steer est _ leapPending :: ops => disciplined (d.feed (est.feed leapPending)).1 ops
  | _ :: ops => disciplined d ops

/-- What the plans among some operations correct its frequency by, in order. -/
def moves (d : Discipline R) : List (Op R) → List R
  | [] => []
  | .steer est _ leapPending :: ops =>
    d.moves (est.feed leapPending) ++ moves (d.feed (est.feed leapPending)).1 ops
  | _ :: ops => moves d ops

/-- The discipline of a run is moved by its plans alone, and by none of their undoings. -/
theorem run_discipline (std : StdFloat R) (c : MultiController R) (ops : List (Op R)) :
    (run std c ops).discipline = disciplined c.discipline ops := by
  induction ops generalizing c with
  | nil => rfl
  | cons op ops ih =>
    refine (ih (step std c op)).trans ?_
    cases op with
    | observe index monoS sample =>
      exact congrArg (disciplined · ops) observe_discipline
    | steer est monoS leapPending => rfl
    | pollDrain monoS => exact congrArg (disciplined · ops) (pollDrain_command monoS).1
    | confirmLastPlan => rfl
    | revertLastPlan => exact congrArg (disciplined · ops) revertLastPlan_discipline

/-- Its frequency is corrected by each of them in turn. -/
theorem disciplined_freqPpm [IsStrictOrderedRing R] (d : Discipline R) (ops : List (Op R)) :
    (disciplined d ops).freqPpm = (moves d ops).foldl d.cfg.correct d.freqPpm := by
  induction ops generalizing d with
  | nil => rfl
  | cons op ops ih =>
    cases op with
    | steer est monoS leapPending =>
      show (disciplined (d.feed (est.feed leapPending)).1 ops).freqPpm = _
      rw [ih, Discipline.feed_moves, Discipline.feed_cfg, moves, List.foldl_append]
    | observe index monoS sample => exact ih d
    | pollDrain monoS => exact ih d
    | confirmLastPlan => exact ih d
    | revertLastPlan => exact ih d

/-- **What they correct it by is not read off it.** -/
theorem moves_besidesFreq [IsStrictOrderedRing R] (d : Discipline R) (ops : List (Op R)) :
    moves d ops = moves d.besidesFreq ops := by
  induction ops generalizing d with
  | nil => rfl
  | cons op ops ih =>
    cases op with
    | steer est monoS leapPending =>
      rw [moves, moves, ih (d.feed _).1, ih (d.besidesFreq.feed _).1,
        ← Discipline.feed_besidesFreq, ← Discipline.moves_besidesFreq]
    | observe index monoS sample => exact ih d
    | pollDrain monoS => exact ih d
    | confirmLastPlan => exact ih d
    | revertLastPlan => exact ih d

/-! ## The plan after them -/

/-- A slew that uses its measurement is corrected by it, and by the trim. -/
theorem command_usesFrequency [IsStrictOrderedRing R] {est : Estimate R} {monoS : R}
    {leapPending : Bool} {fm : R} (hfm : est.freqPpm = some fm)
    (huses : (c.steer est monoS leapPending).2.usesFrequency c.discipline = true) :
    ∃ drainOffset drainRatePpm, (c.steer est monoS leapPending).2.plan.command =
      .slew ((fm :: (c.discipline.trim (est.feed leapPending)).toList).foldl
        c.discipline.cfg.correct c.discipline.freqPpm) drainOffset drainRatePpm := by
  rw [steer_usesFrequency] at huses
  have hreaches : c.discipline.counted.reachesFreq (est.feed leapPending) = true := by
    by_contra hnot
    rw [Discipline.measured, if_neg fun h => hnot h.1] at huses
    exact Bool.false_ne_true huses
  have hmeasured : c.discipline.measured (est.feed leapPending) = some fm := by
    unfold Discipline.measured at huses ⊢
    split at huses
    · next hslow => exact (if_pos hslow).trans hfm
    · exact absurd huses Bool.false_ne_true
  obtain ⟨freq, drainOffset, drainRatePpm, hcommand⟩ : ∃ freq drainOffset drainRatePpm,
      (c.steer est monoS leapPending).2.plan.command = .slew freq drainOffset drainRatePpm :=
    ⟨_, _, _, congrArg (fun out => out.2.command) (Discipline.feed_of_reachesFreq hreaches)⟩
  refine ⟨drainOffset, drainRatePpm, ?_⟩
  rw [hcommand, steer_slew hcommand, steer_freqCmdPpm, Discipline.feed_moves, Discipline.moves,
    hmeasured]
  rfl

/--
**A refused plan's own measurement stays in the discipline.** After any row of refused plans the
books are those before it, and the frequency in force `f` is too. The discipline's own frequency is
corrected by all that the refused plans measured, so the next slew that uses a measurement `fm`
commands `fm` on top of `f`, within the ceiling, exactly when those corrections, then `fm` and the
trim of its plan, lead from the discipline's frequency before the row to the same.
-/
theorem noTrace_iff [IsStrictOrderedRing R] (std : StdFloat R) (c : MultiController R)
    (refused : List (Op R)) (hrefused : RefusedInARow refused) (est : Estimate R) (monoS : R)
    (leapPending : Bool) (fm : R) (hfm : est.freqPpm = some fm)
    (huses : ((run std c refused).steer est monoS leapPending).2.usesFrequency
      (run std c refused).discipline = true) :
    NoTrace std c refused est monoS leapPending fm ↔
      (moves c.discipline refused ++ fm ::
          ((disciplined c.discipline refused).trim (est.feed leapPending)).toList).foldl
        c.discipline.cfg.correct c.discipline.freqPpm =
          c.discipline.cfg.correct c.freqCmdPpm fm := by
  obtain ⟨offset, rate, hcommand⟩ := command_usesFrequency hfm huses
  rw [(run_refused hrefused c).2, run_discipline, disciplined_freqPpm, ← List.foldl_append]
    at hcommand
  constructor
  · rintro ⟨-, offset', rate', hcommand'⟩
    rw [hcommand] at hcommand'
    injection hcommand'
  · intro heq
    refine ⟨?_, offset, rate, ?_⟩
    · intro before est' monoS' leapPending' _
      rw [run_append]
      exact revert_steer (run std c before) est' monoS' leapPending'
    · rw [hcommand, heq]
      rfl

/-- A clock that gains 1 ppm, measured at `t`. -/
def gaining (t : ℚ) : Sample ℚ := ⟨t, -t / 1000000, 1 / 1000, 0⟩

def measuredAt (times : List ℚ) : List (Op ℚ) := times.map fun t => .observe 0 t (gaining t)

/-- Its controller, before any plan. -/
def acquiring (times : List ℚ) : MultiController ℚ :=
  run ⟨id, id, fun _ _ => none⟩ (new .default 1) (measuredAt times)

/-- A measurement whose plan is refused, and the measurement after it. -/
def refusedAt (c : MultiController ℚ) (t next : ℚ) : List (Op ℚ) :=
  [.observe 0 t (gaining t),
    .steer (c.observe ⟨id, id, fun _ _ => none⟩ 0 t (gaining t)).2 t false, .revertLastPlan,
    .observe 0 next (gaining next)]

/-- The refused plan had measured no frequency. -/
theorem noTrace_unmeasured :
    NoTrace ⟨id, id, fun _ _ => none⟩ (acquiring [2, 4, 6]) (refusedAt (acquiring [2, 4, 6]) 8 10)
      ⟨-1 / 100000, some (-1), 1 / 10000000, 5⟩ 10 false (-1) :=
  (noTrace_iff ⟨id, id, fun _ _ => none⟩ (acquiring [2, 4, 6])
    (refusedAt (acquiring [2, 4, 6]) 8 10) trivial ⟨-1 / 100000, some (-1), 1 / 10000000, 5⟩ 10
    false (-1) rfl (by decide +kernel)).mpr (by decide +kernel)

/-- The refused plan had measured 1 ppm: the next plan corrects it twice. -/
theorem not_noTrace :
    ¬NoTrace ⟨id, id, fun _ _ => none⟩ (acquiring [2, 4, 6, 8])
      (refusedAt (acquiring [2, 4, 6, 8]) 10 12) ⟨-3 / 250000, some (-1), 1 / 10000000, 6⟩ 12 false
      (-1) := by
  rintro ⟨-, drainOffset, drainRatePpm, hcommand⟩
  have hdoubled : ((run ⟨id, id, fun _ _ => none⟩ (acquiring [2, 4, 6, 8])
      (refusedAt (acquiring [2, 4, 6, 8]) 10 12)).steer
        ⟨-3 / 250000, some (-1), 1 / 10000000, 6⟩ 12 false).2.plan.command =
          .slew (-2) (-3 / 250000) 6 := by
    decide +kernel
  rw [hdoubled] at hcommand
  injection hcommand with hfreq
  exact absurd hfreq (by decide +kernel)

end MultiController

end RustyTime
