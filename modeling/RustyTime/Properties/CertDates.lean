import RustyTime.Infra.Run
import RustyTime.Properties.Ceiling
import RustyTime.Properties.Guard

/-!
# When certificate dates start to be judged

* `feed_turnsDown`, `feed_accepted` — what the guard says of an estimate, from the state it finds
* `SyncLoop.step_puts` — one event puts a correction on the clock, or leaves `CLOCK_SET` alone
* `lenient_until_steered_iff` — the leniency lasts until the first correction, exactly when no
  refused one is held with success before it
-/

namespace RustyTime

set_option linter.unusedSectionVars false

variable {R : Type} [Field R] [LinearOrder R]

/-! ## What the guard says -/

namespace Discipline

/-- The guard turns the estimate down, and its allowance for refusals is not spent. -/
def turnsDown (d : Discipline R) (f : Feed R) : Bool :=
  !d.counted.stepsLeap f && d.counted.refuses f &&
    !decide (0 ≤ d.cfg.maxChangeIgnore ∧
      d.cfg.maxChangeIgnore < ((d.changeRefusals + 1 : Nat) : Int))

/-- An estimate turned down is not accepted, and does not end the process. -/
theorem feed_turnsDown {d : Discipline R} {f : Feed R} (h : d.turnsDown f = true) :
    (d.feed f).2.verdict = .refused f.offset (d.changeRefusals + 1) := by
  unfold turnsDown at h
  simp only [Bool.and_eq_true, Bool.not_eq_true', decide_eq_false_iff_not] at h
  obtain ⟨⟨hleap, hrefuses⟩, hspent⟩ := h
  have hout := feed_outcome d f
  generalize d.feed f = out at hout ⊢
  cases hout with
  | leap hl => rw [hleap] at hl; exact nomatch hl
  | refuse => exact if_neg hspent
  | step _ hr => rw [hrefuses] at hr; exact nomatch hr
  | slew hreaches => simp [reachesFreq, hrefuses] at hreaches

/-- What is neither turned down nor the end of the process is accepted. -/
theorem feed_accepted {d : Discipline R} {f : Feed R} (h : d.turnsDown f = false)
    (hgoes : ∀ offset, (d.feed f).2.verdict ≠ .giveUp offset) :
    (d.feed f).2.verdict = .accepted := by
  have hout := feed_outcome d f
  generalize d.feed f = out at hout hgoes ⊢
  cases hout with
  | leap => rfl
  | step => rfl
  | slew => rfl
  | refuse hrefuses hleap =>
    by_cases hspent : 0 ≤ d.cfg.maxChangeIgnore ∧
        d.cfg.maxChangeIgnore < ((d.changeRefusals + 1 : Nat) : Int)
    · exact absurd (if_pos hspent) (hgoes f.offset)
    · rw [turnsDown, hleap, hrefuses, decide_eq_false hspent] at h
      exact nomatch h

end Discipline

variable [FloorRing R]

/-! ## One event -/

namespace SyncLoop

variable {opts : SyncOptions R} {std : StdFloat R} {nominalTickUs : Int}

/-- The discipline and the estimate it is asked about, when an event comes to steer. -/
def asked (std : StdFloat R) (s : SyncLoop R) (ev : SyncEvent R) :
    Option (Discipline R × Feed R) :=
  (s.hears std ev).bind fun h =>
    if selectedIndex h.sources = some h.index then
      some (h.ctl.discipline, ⟨h.est.offsetS, h.est.freqPpm, h.est.sdS, h.source.leapPending⟩)
    else none

theorem retire_clockSet (s : SyncLoop R) (monoS : R) (ok : Bool) :
    (s.retire opts nominalTickUs monoS ok).1.clockSet = s.clockSet := by
  obtain ⟨_, _, _, _, heq, -⟩ := retire_eq opts nominalTickUs s monoS ok
  rw [heq]
  rfl

theorem expire_clockSet (s : SyncLoop R) (checkedS : R) :
    (s.expire opts checkedS).clockSet = s.clockSet := by
  obtain ⟨_, _, heq⟩ := expire_eq opts s checkedS
  rw [heq]
  rfl

theorem holdIfNoMajority_clockSet (s : SyncLoop R) (selected : Option Nat) (ok : Bool) :
    (s.holdIfNoMajority opts nominalTickUs selected ok).1.clockSet = s.clockSet := by
  obtain ⟨_, _, _, heq, -⟩ := holdIfNoMajority_eq opts nominalTickUs s selected ok
  rw [heq]
  rfl

theorem publish_clockSet (s : SyncLoop R) (source : Source R) (step : ControllerStep R)
    (answer : Option Bool) (p : Poll R) :
    (s.publish source step answer p).clockSet = s.clockSet := by
  obtain ⟨_, _, _, heq⟩ := publish_eq s source step answer p
  rw [heq]
  rfl

/-- An event leaves `CLOCK_SET` alone, and publishes nothing that the driver took. -/
def Spares (s : SyncLoop R) (out : SyncLoop R × Option (Deed R)) : Prop :=
  out.1.clockSet = s.clockSet ∧ ∀ d, out.2.bind Deed.decision = some d → d.answer ≠ some true

/-- An event sets `CLOCK_SET`, and publishes the plan the driver took. -/
def Puts (verdict : ChangeVerdict R) (out : SyncLoop R × Option (Deed R)) : Prop :=
  out.1.clockSet = true ∧
    ∃ d, out.2 = some (.published d) ∧ d.answer = some true ∧ d.verdict = verdict

theorem Spares.of_none {s : SyncLoop R} {out : SyncLoop R × Option (Deed R)}
    (hset : out.1.clockSet = s.clockSet) (hnone : out.2.bind Deed.decision = none) :
    Spares s out :=
  ⟨hset, fun d hd => by rw [hnone] at hd; exact nomatch hd⟩

/-- A plan is put on the clock unless it gives up, or the driver is not there to take it. -/
theorem execute_puts (s : SyncLoop R) (index : Nat) (source : Source R) (step : ControllerStep R)
    (p : Poll R) (hexited : s.exited = false) :
    ((∀ offset, step.verdict ≠ .giveUp offset) ∧ opts.dryRun = false ∧ p.ok = true ∧
        Puts step.verdict (s.execute opts nominalTickUs index source step p)) ∨
      (((∃ offset, step.verdict = .giveUp offset) ∨ opts.dryRun = true ∨ p.ok = false) ∧
        Spares s (s.execute opts nominalTickUs index source step p)) := by
  unfold execute
  split
  · next offset hgiveUp => exact .inr ⟨.inl ⟨offset, hgiveUp⟩, .of_none rfl rfl⟩
  · next hgoes =>
    unfold commit
    cases hdry : opts.dryRun with
    | true =>
      refine .inr ⟨.inr (.inl rfl), ?_⟩
      simp only [if_true, hexited, Bool.false_eq_true, if_false]
      refine ⟨publish_clockSet _ _ _ _ _, ?_⟩
      rintro d ⟨⟩
      simp
    | false =>
      cases hok : p.ok with
      | true =>
        refine .inl ⟨hgoes, rfl, rfl, ?_⟩
        simp only [if_true, hexited, Bool.false_eq_true, if_false]
        exact ⟨publish_clockSet _ _ _ _ _, _, rfl, rfl, rfl⟩
      | false =>
        refine .inr ⟨.inr (.inr rfl), ?_⟩
        simp only [Bool.false_eq_true, if_false]
        split
        · exact .of_none rfl rfl
        · refine ⟨publish_clockSet _ _ _ _ _, ?_⟩
          rintro d ⟨⟩
          simp

/-- The selected source's plan, carried out. -/
theorem choose_puts (opts : SyncOptions R) (nominalTickUs : Int) (s : SyncLoop R) (index : Nat)
    (source : Source R) (est : Estimate R) (monoS : R) (p : Poll R)
    (hselected : selectedIndex s.sources = some index) (hexited : s.exited = false) :
    let verdict := (s.ctl.discipline.feed
      ⟨est.offsetS, est.freqPpm, est.sdS, source.leapPending⟩).2.verdict
    ((∀ offset, verdict ≠ .giveUp offset) ∧ opts.dryRun = false ∧ p.ok = true ∧
        Puts verdict (s.choose opts nominalTickUs index source est monoS p)) ∨
      (((∃ offset, verdict = .giveUp offset) ∨ opts.dryRun = true ∨ p.ok = false) ∧
        Spares s (s.choose opts nominalTickUs index source est monoS p)) := by
  unfold choose
  dsimp only
  rw [if_pos hselected]
  let steered := s.ctl.steer est monoS source.leapPending
  exact execute_puts { s with ctl := steered.1, sources := s.sources.set index _ } index _
    steered.2 p hexited

/-- **One event puts a correction on the clock, or leaves `CLOCK_SET` alone.** It puts one when it
comes to steer, the discipline does not give up, and the driver takes the command. -/
theorem step_puts (s : SyncLoop R) (ev : SyncEvent R) :
    (∃ a ∈ s.asked std ev, (∀ offset, (a.1.feed a.2).2.verdict ≠ .giveUp offset) ∧
        opts.dryRun = false ∧ ev.ok = true ∧
        Puts (a.1.feed a.2).2.verdict (s.step opts std nominalTickUs ev)) ∨
      ((∀ a ∈ s.asked std ev, (∃ offset, (a.1.feed a.2).2.verdict = .giveUp offset) ∨
          opts.dryRun = true ∨ ev.ok = false) ∧
        Spares s (s.step opts std nominalTickUs ev)) := by
  have hnone : ∀ a ∈ (none : Option (Discipline R × Feed R)),
      (∃ offset, (a.1.feed a.2).2.verdict = .giveUp offset) ∨ opts.dryRun = true ∨
        ev.ok = false := fun _ h => nomatch h
  unfold step asked hears
  by_cases hexited : s.exited = true
  · simp only [hexited, if_true]
    exact .inr ⟨hnone, .of_none rfl rfl⟩
  · simp only [hexited, Bool.false_eq_true, if_false]
    cases ev with
    | head checkedS monoS ok =>
      refine .inr ⟨hnone, .of_none ?_ (retire_views _ _ _).2⟩
      exact (retire_clockSet _ _ _).trans (expire_clockSet _ _)
    | poll index p =>
      dsimp only
      cases hheard : s.heard std index p with
      | none =>
        obtain ⟨sources, heq, -⟩ := poll_of_unheard opts nominalTickUs hheard
        rw [heq]
        exact .inr ⟨hnone, .of_none rfl rfl⟩
      | some heard =>
        rw [poll_of_heard opts nominalTickUs hheard, Option.bind_some, (heard_cases hheard).1]
        by_cases hselected : selectedIndex heard.sources = some index
        · rw [if_pos hselected]
          have hputs := choose_puts opts nominalTickUs
            { s with ctl := heard.ctl, sources := heard.sources } index heard.source heard.est
            heard.monoS p hselected (Bool.eq_false_of_not_eq_true hexited)
          rcases hputs with ⟨hgoes, hdry, hok, hputs⟩ | ⟨hnot, hspares⟩
          · exact .inl ⟨_, rfl, hgoes, hdry, hok, hputs⟩
          · refine .inr ⟨?_, hspares⟩
            rintro _ ⟨⟩
            exact hnot
        · unfold choose
          dsimp only
          rw [if_neg hselected, if_neg hselected]
          exact .inr ⟨hnone, .of_none (holdIfNoMajority_clockSet _ _ _) holdIfNoMajority_views.2⟩

/-- A command held for a refused correction reaches the clock. -/
def HoldsRefused (opts : SyncOptions R) (std : StdFloat R) (s : SyncLoop R) (ev : SyncEvent R) :
    Prop :=
  opts.dryRun = false ∧ ev.ok = true ∧ ∃ a ∈ s.asked std ev, a.1.turnsDown a.2 = true

end SyncLoop

/-! ## Runs -/

namespace SyncTrace

open SyncLoop

variable {opts : SyncOptions R} {std : StdFloat R} {nominalTickUs : Int}

/-- Certificate dates are judged by the local clock only once a correction has put it right. -/
structure Lenient (nocerttimecheck : Bool) (t : SyncTrace R) : Prop where
  earned : t.loop.clockSet = true → ∃ d ∈ t.published, d.Steered
  /-- What key establishment asks for while no plan was accepted. -/
  ignored : nocerttimecheck = true → (∀ d ∈ t.published, d.verdict ≠ .accepted) →
    establishNts nocerttimecheck t.loop.clockSet = .ignored

/-- The leniency follows from what `CLOCK_SET` stands for. -/
theorem lenient_iff {nocerttimecheck : Bool} {t : SyncTrace R} :
    Lenient nocerttimecheck t ↔ (t.loop.clockSet = true → ∃ d ∈ t.published, d.Steered) := by
  refine ⟨Lenient.earned, fun h => ⟨h, ?_⟩⟩
  intro hnocert hrefused
  cases hset : t.loop.clockSet with
  | false => simp [establishNts, hnocert]
  | true =>
    obtain ⟨d, hd, haccepted, -⟩ := h hset
    exact absurd haccepted (hrefused d hd)

/-- What the driver took, `CLOCK_SET` shows. -/
def Shows (t : SyncTrace R) : Prop := (∃ d ∈ t.published, d.answer = some true) →
  t.loop.clockSet = true

/-- No command held for a refused correction is the first to reach the clock. -/
def SparesFirst (opts : SyncOptions R) (std : StdFloat R) (t : SyncTrace R) (ev : SyncEvent R) :
    Prop :=
  t.loop.clockSet = true ∨ ¬t.loop.HoldsRefused opts std ev

/-- One event of a run: a correction is put on the clock and on record, or neither. -/
theorem step_puts (opts : SyncOptions R) (t : SyncTrace R) (ev : SyncEvent R) :
    let t' := t.step opts std nominalTickUs ev
    (∃ a ∈ t.loop.asked std ev, (∀ offset, (a.1.feed a.2).2.verdict ≠ .giveUp offset) ∧
        opts.dryRun = false ∧ ev.ok = true ∧ t'.loop.clockSet = true ∧
        ∃ d, t'.published = d :: t.published ∧ d.answer = some true ∧
          d.verdict = (a.1.feed a.2).2.verdict) ∨
      ((∀ a ∈ t.loop.asked std ev, (∃ offset, (a.1.feed a.2).2.verdict = .giveUp offset) ∨
          opts.dryRun = true ∨ ev.ok = false) ∧
        t'.loop.clockSet = t.loop.clockSet ∧
        ∃ new : List (Decision R), t'.published = new ++ t.published ∧
          ∀ d ∈ new, d.answer ≠ some true) := by
  intro t'
  by_cases hexited : t.loop.exited = true
  · have hsame : t' = t := if_pos hexited
    rw [hsame]
    refine .inr ⟨?_, rfl, [], rfl, fun d hd => absurd hd List.not_mem_nil⟩
    unfold asked hears
    rw [if_pos hexited]
    exact fun _ h => nomatch h
  · have hloop : t'.loop = (t.loop.step opts std nominalTickUs ev).1 := by
      simp only [t', step, hexited, Bool.false_eq_true, if_false]
    have hpublished : t'.published =
        ((t.loop.step opts std nominalTickUs ev).2.bind Deed.decision).toList ++ t.published := by
      simp only [t', step, hexited, Bool.false_eq_true, if_false]
    rw [hloop, hpublished]
    rcases t.loop.step_puts ev with ⟨a, ha, hgoes, hdry, hok, hset, d, hd, hrest⟩ |
      ⟨hnot, hsame, hanswer⟩
    · refine .inl ⟨a, ha, hgoes, hdry, hok, hset, d, ?_, hrest⟩
      rw [hd]
      rfl
    · refine .inr ⟨hnot, hsame, _, rfl, ?_⟩
      intro d hd
      exact hanswer d (Option.mem_toList.mp hd)

theorem start_lenient (nocerttimecheck : Bool) (sources : List (Source R)) (now : R) :
    Lenient nocerttimecheck (start opts sources nominalTickUs now) := by
  rw [lenient_iff]
  exact fun h => nomatch h

theorem step_shows {t : SyncTrace R} {ev : SyncEvent R} (ht : Shows t) :
    Shows (t.step opts std nominalTickUs ev) := by
  intro htaken
  rcases step_puts opts t ev with ⟨-, -, -, -, -, hset, -⟩ | ⟨-, hsame, new, hnew, hspared⟩
  · exact hset
  · obtain ⟨d, hd, hanswer⟩ := htaken
    rw [hnew] at hd
    rw [hsame]
    refine ht ⟨d, (List.mem_append.mp hd).resolve_left fun hmem => ?_, hanswer⟩
    exact hspared d hmem hanswer

/-- **The leniency outlives one event exactly when the event spares `CLOCK_SET`.** -/
theorem step_lenient_iff {nocerttimecheck : Bool} {t : SyncTrace R} {ev : SyncEvent R}
    (hshows : Shows t) (ht : Lenient nocerttimecheck t) :
    Lenient nocerttimecheck (t.step opts std nominalTickUs ev) ↔ SparesFirst opts std t ev := by
  rw [lenient_iff]
  rcases step_puts opts t ev with
    ⟨a, ha, hgoes, hdry, hok, hset, d, hpublished, hanswer, hverdict⟩ | ⟨hnot, hsame, new, hnew, -⟩
  · cases hdown : a.1.turnsDown a.2 with
    | false =>
      -- the correction is accepted, and on the clock
      have haccepted := Discipline.feed_accepted hdown hgoes
      refine iff_of_true (fun _ => ⟨d, ?_, hverdict.trans haccepted, hanswer⟩) (.inr ?_)
      · rw [hpublished]
        exact List.mem_cons_self
      · rintro ⟨-, -, a', ha', hdown'⟩
        obtain rfl := Option.mem_unique ha ha'
        rw [hdown] at hdown'
        exact nomatch hdown'
    | true =>
      -- the hold of a refused correction is: only an earlier one can have earned the flag
      have hheld : t.loop.HoldsRefused opts std ev := ⟨hdry, hok, a, ha, hdown⟩
      have hrefused := hverdict.trans (Discipline.feed_turnsDown hdown)
      rw [hpublished]
      constructor
      · intro h
        obtain ⟨d', hd', hsteered⟩ := h hset
        refine .inl (hshows ⟨d', ?_, hsteered.2⟩)
        rcases List.mem_cons.mp hd' with rfl | hmem
        · exact nomatch hrefused.symm.trans hsteered.1
        · exact hmem
      · rintro (hbefore | hspared) -
        · obtain ⟨d', hd', hsteered⟩ := ht.earned hbefore
          exact ⟨d', List.mem_cons_of_mem d hd', hsteered⟩
        · exact absurd hheld hspared
  · refine iff_of_true ?_ (.inr ?_)
    · intro hset
      rw [hsame] at hset
      obtain ⟨d, hd, hsteered⟩ := ht.earned hset
      rw [hnew]
      exact ⟨d, List.mem_append_right new hd, hsteered⟩
    · rintro ⟨hdry, hok, a, ha, hdown⟩
      rcases hnot a ha with ⟨offset, hgiveUp⟩ | hdry' | hok'
      · exact nomatch (Discipline.feed_turnsDown hdown).symm.trans hgiveUp
      · exact nomatch hdry.symm.trans hdry'
      · exact nomatch hok.symm.trans hok'

/-- **Certificate dates are judged once a correction is on the clock, and not before, over every
run whose refused corrections spare the clock until then; over no other.** -/
theorem lenient_until_steered_iff (opts : SyncOptions R) (std : StdFloat R) (nominalTickUs : Int)
    (sources : List (Source R)) (now : R) (nocerttimecheck : Bool) (evs : List (SyncEvent R)) :
    (∀ past, past <+: evs →
        Lenient nocerttimecheck
          ((start opts sources nominalTickUs now).run opts std nominalTickUs past)) ↔
      Infra.Run.Along (step opts std nominalTickUs) (SparesFirst opts std)
        (start opts sources nominalTickUs now) evs := by
  refine Infra.Run.always_iff Shows (fun _ _ => step_shows) (fun _ _ => step_lenient_iff) ?_
    (start_lenient nocerttimecheck sources now)
  rintro ⟨d, hd, -⟩
  exact absurd hd List.not_mem_nil

/-- A guard of a tenth of a second from the first update, on a host whose clock is a second
off. -/
def unset : SyncOptions ℚ := ⟨false, DisciplineRun.guarded, false, true⟩

/-- Its first reply, which the guard refuses; the driver takes the hold. -/
def holdsFirst : List (SyncEvent ℚ) := [.poll 0 (.prompt 1 (some (.ahead 2 1 0 1000 1)) true)]

def unsetHeld : SyncTrace ℚ :=
  (start unset [.opened 0] 10000 0).run unset ⟨id, id, fun _ _ => none⟩ 10000 holdsFirst

/-- The only plan so far is refused, and certificate dates are judged by the unset clock. -/
theorem not_lenient :
    (∀ d ∈ unsetHeld.published, d.verdict ≠ .accepted) ∧
      establishNts true unsetHeld.loop.clockSet = .checked ∧ ¬Lenient true unsetHeld := by
  have hrefused : ∀ d ∈ unsetHeld.published, d.verdict ≠ .accepted := by decide +kernel
  have hchecked : establishNts true unsetHeld.loop.clockSet = .checked := by decide +kernel
  refine ⟨hrefused, hchecked, fun h => ?_⟩
  exact nomatch hchecked.symm.trans (h.ignored rfl hrefused)

end SyncTrace

end RustyTime
