import Mathlib.Algebra.Order.Ring.Rat
import RustyTime.Spec.ClientLedger
import RustyTime.Properties.Client
import RustyTime.Properties.Filter

/-!
# The registers describe what the clock did

The controller books a drain from three places (`settle_drain`, `poll_drain`, `steer`) and takes
a refused plan back. Whatever the order of calls, each register is the window of the ledger's
accounts, with the drain booked exactly up to `drainBookedUntil`.

* `Books` — the invariant
* `advance_books`, `settleDrain_books`, `observe_books`, `steer_books`, `retireDrain_books`,
  `revertLastPlan_books` — what each does to it
* `run_accounts` — every run
-/

namespace RustyTime.MultiController

open RustyTime.Piecewise
open RustyTime.SampleRegister (reexpress lastN Tracks)

set_option linter.unusedSectionVars false

variable {R : Type} [Field R] [LinearOrder R] {c : MultiController R} {n : ℕ}

/-! ## Accounts -/

theorem steps_append (journal rest : List (Entry R)) :
    steps (journal ++ rest) = steps journal + steps rest := by
  induction journal with
  | nil => simp [steps]
  | cons entry journal ih =>
    cases entry with
    | pushed i monoS s => exact ih
    | planned monoS dfreqPpm stepS => rw [List.cons_append, steps, ih, steps, add_assoc]

theorem tilts_append (t : R) (journal rest : List (Entry R)) :
    tilts t (journal ++ rest) = tilts t journal + tilts t rest := by
  induction journal with
  | nil => simp [tilts]
  | cons entry journal ih =>
    cases entry with
    | pushed i monoS s => exact ih
    | planned monoS dfreqPpm stepS => rw [List.cons_append, tilts, ih, tilts, add_assoc]

/-- A plan re-expresses every account before it. -/
theorem accounts_planned (drained : R → R) (index : ℕ) (journal : List (Entry R))
    (monoS dfreqPpm stepS : R) :
    accounts drained index (journal ++ [.planned monoS dfreqPpm stepS])
      = (accounts drained index journal).map (reexpress monoS dfreqPpm stepS) := by
  induction journal with
  | nil => rfl
  | cons entry journal ih =>
    cases entry with
    | planned _ _ _ => exact ih
    | pushed i pushedAt s =>
      rw [List.cons_append, accounts, accounts, ih]
      by_cases hi : i = index
      · rw [if_pos hi, if_pos hi, List.map_cons, steps_append, tilts_append]
        congr 1
        simp only [steps, tilts, add_zero, reexpress, Sample.mk.injEq, true_and, and_true]
        ring
      · rw [if_neg hi, if_neg hi]

/-- A sample enters with the drain of no time at all. -/
theorem accounts_pushed (drained : R → R) (index : ℕ) (journal : List (Entry R)) (i : ℕ)
    {monoS : R} (s : Sample R) (h0 : drained monoS = 0) :
    accounts drained index (journal ++ [.pushed i monoS s])
      = accounts drained index journal ++ if i = index then [s] else [] := by
  induction journal with
  | nil =>
    show accounts drained index [.pushed i monoS s] = _
    simp only [accounts, h0, steps, tilts, sub_zero, List.nil_append]
  | cons entry journal ih =>
    cases entry with
    | planned _ _ _ => exact ih
    | pushed j pushedAt s' =>
      rw [List.cons_append, accounts, accounts, ih, steps_append, tilts_append]
      simp only [steps, tilts, add_zero]
      by_cases hj : j = index
      · rw [if_pos hj, if_pos hj, List.cons_append]
      · rw [if_neg hj, if_neg hj]

/-- Booking `x` seconds of drain re-expresses every account. -/
theorem accounts_booked (drained drained' : R → R) (x tChange : R) (index : ℕ)
    {journal : List (Entry R)}
    (h : ∀ i monoS s, Entry.pushed i monoS s ∈ journal → drained' monoS = drained monoS + x) :
    accounts drained' index journal
      = (accounts drained index journal).map (reexpress tChange 0 x) := by
  induction journal with
  | nil => rfl
  | cons entry journal ih =>
    replace ih := ih fun i monoS s hm => h i monoS s (List.mem_cons_of_mem _ hm)
    cases entry with
    | planned _ _ _ => exact ih
    | pushed i monoS s =>
      rw [accounts, accounts, ih]
      by_cases hi : i = index
      · rw [if_pos hi, if_pos hi, List.map_cons, h i monoS s List.mem_cons_self]
        congr 1
        simp only [reexpress, Sample.mk.injEq, true_and, and_true]
        ring
      · rw [if_neg hi, if_neg hi]

theorem accounts_congr {drained drained' : R → R} (index : ℕ) {journal : List (Entry R)}
    (h : ∀ i monoS s, Entry.pushed i monoS s ∈ journal → drained' monoS = drained monoS) :
    accounts drained' index journal = accounts drained index journal := by
  have hzero : reexpress (0 : R) 0 0 = id := by
    funext s
    simp [reexpress]
  rw [accounts_booked drained drained' 0 0 index fun i monoS s hm => (h i monoS s hm).trans
    (add_zero _).symm, hzero, List.map_id]

/-! ## The registers -/

/-- Register `i` is the window of the samples `expected i`. -/
structure Holds (registers : List (SampleRegister R)) (n : ℕ) (expected : ℕ → List (Sample R)) :
    Prop where
  length : registers.length = n
  tracks : ∀ i reg, registers[i]? = some reg → Tracks reg registerCapacity (expected i)

theorem newRegister_tracks (config : DisciplineConfig R) :
    Tracks (newRegister config) registerCapacity [] :=
  have h : Tracks (SampleRegister.new registerCapacity : SampleRegister R) registerCapacity [] :=
    SampleRegister.new_tracks registerCapacity
  ⟨h.capacity, h.pos, h.window, h.head, h.live, h.weights, h.minDelay⟩

theorem new_holds (config : DisciplineConfig R) (sources : ℕ) :
    Holds (new config sources).registers (max sources 1) fun _ => [] where
  length := List.length_replicate
  tracks i reg hreg := by
    have hmem : reg ∈ List.replicate (max sources 1) (newRegister config) :=
      List.mem_of_getElem? hreg
    rw [List.eq_of_mem_replicate hmem]
    exact newRegister_tracks config

theorem Holds.slew {registers : List (SampleRegister R)} {expected : ℕ → List (Sample R)}
    (h : Holds registers n expected) (tChange dfreqPpm doffset : R) :
    Holds (registers.map fun r => r.slewSamples tChange dfreqPpm doffset) n fun i =>
      (expected i).map (reexpress tChange dfreqPpm doffset) where
  length := by rw [List.length_map, h.length]
  tracks i reg hreg := by
    rw [List.getElem?_map, Option.map_eq_some_iff] at hreg
    obtain ⟨reg', hreg', rfl⟩ := hreg
    exact SampleRegister.slewSamples_tracks (h.tracks i reg' hreg') tChange dfreqPpm doffset

theorem Holds.push {registers : List (SampleRegister R)} {expected : ℕ → List (Sample R)}
    (h : Holds registers n expected) (index : ℕ) (s : Sample R) :
    Holds (registers.modify index fun r => r.push s) n fun i =>
      expected i ++ if index = i then [s] else [] where
  length := by rw [List.length_modify, h.length]
  tracks i reg hreg := by
    rw [List.getElem?_modify, Option.map_eq_map, Option.map_eq_some_iff] at hreg
    obtain ⟨reg', hreg', rfl⟩ := hreg
    by_cases hi : index = i
    · simp only [if_pos hi]
      exact SampleRegister.push_tracks (h.tracks i reg' hreg') s
    · simp only [if_neg hi, List.append_nil]
      exact h.tracks i reg' hreg'

theorem Holds.estimate {expected : ℕ → List (Sample R)} (h : Holds c.registers n expected)
    (std : StdFloat R) (index : ℕ) (monoNowS : R) :
    Holds (c.estimate std index monoNowS).1.registers n expected := by
  unfold MultiController.estimate
  split
  · exact h
  · next reg hreg =>
    refine ⟨by simpa using h.length, fun i reg' hreg' => ?_⟩
    rw [List.getElem?_set] at hreg'
    split at hreg'
    · next hi =>
      split at hreg'
      · cases hreg'
        exact SampleRegister.regress_tracks (hi ▸ h.tracks index reg hreg) std monoNowS
      · cases hreg'
    · exact h.tracks i reg' hreg'

/-! ## The invariant -/

/-- The drain since `monoS` that the registers have been told of. -/
def drainedBy (c : MultiController R) (g : Ledger R) (monoS : R) : R :=
  match c.drainBookedUntil with
  | none => 0
  | some b => integral g.timeline monoS b

/-- **The books are right.** The drain is booked up to `drainBookedUntil`, and since then the
clock has drained at the rate the controller still carries. -/
structure Books (c : MultiController R) (g : Ledger R) (n : ℕ) : Prop where
  registers : Holds c.registers n fun i => accounts (drainedBy c g) i g.journal
  ended : ∀ seg ∈ g.timeline, ∃ now, g.now = some now ∧ seg.start ≤ now ∧ seg.stop ≤ now
  pushed : ∀ i monoS s, Entry.pushed i monoS s ∈ g.journal → ∃ now, g.now = some now ∧ monoS ≤ now
  idle : c.drainBookedUntil = none → c.drainPpm = 0 ∧ ∀ seg ∈ g.timeline, seg.rate = 0
  pushedBooked : ∀ b, c.drainBookedUntil = some b →
    ∀ i monoS s, Entry.pushed i monoS s ∈ g.journal → monoS ≤ b
  running : ∀ b, c.drainBookedUntil = some b → ∃ now, g.now = some now ∧ b ≤ now ∧
    ∀ a ≤ b, integral g.timeline a now
      = integral g.timeline a b + c.drainPpm * 1e-6 * (now - b)

/-- Everything that ran has been booked. -/
def BookedAt (c : MultiController R) (monoS : R) : Prop :=
  c.drainBookedUntil = none ∨ c.drainBookedUntil = some monoS

theorem new_books (config : DisciplineConfig R) (sources : ℕ) :
    Books (new config sources) .empty (max sources 1) where
  registers := new_holds config sources
  ended _ hseg := nomatch hseg
  pushed _ _ _ hm := nomatch hm
  idle _ := ⟨rfl, fun _ hseg => nomatch hseg⟩
  pushedBooked _ hb := nomatch hb
  running _ hb := nomatch hb

variable [IsStrictOrderedRing R] {g : Ledger R} {monoS : R}

/-- With nothing on the ledger yet there is no drain to book, no history and no timeline. -/
theorem Books.before (h : Books c g n) (hnow : g.now = none) :
    c.drainBookedUntil = none ∧ (∀ seg, seg ∉ g.timeline) ∧
      ∀ i monoS s, Entry.pushed i monoS s ∉ g.journal := by
  refine ⟨?_, ?_, ?_⟩
  · by_contra hbooked
    obtain ⟨b, hb⟩ := Option.ne_none_iff_exists'.mp hbooked
    obtain ⟨now, hsome, -⟩ := h.running b hb
    exact nomatch hnow.symm.trans hsome
  · intro seg hseg
    obtain ⟨now, hsome, -⟩ := h.ended seg hseg
    exact nomatch hnow.symm.trans hsome
  · intro i monoS s hm
    obtain ⟨now, hsome, -⟩ := h.pushed i monoS s hm
    exact nomatch hnow.symm.trans hsome

section Present

variable {now : R}

theorem Books.ended_at (h : Books c g n) (hnow : g.now = some now) {seg : Segment R}
    (hseg : seg ∈ g.timeline) : seg.start ≤ now ∧ seg.stop ≤ now := by
  obtain ⟨now', hsome, hboth⟩ := h.ended seg hseg
  obtain rfl := Option.some.inj (hsome.symm.trans hnow)
  exact hboth

theorem Books.pushed_at (h : Books c g n) (hnow : g.now = some now) {i : ℕ} {pushedAt : R}
    {s : Sample R} (hm : Entry.pushed i pushedAt s ∈ g.journal) : pushedAt ≤ now := by
  obtain ⟨now', hsome, hle⟩ := h.pushed i pushedAt s hm
  obtain rfl := Option.some.inj (hsome.symm.trans hnow)
  exact hle

theorem Books.running_at (h : Books c g n) (hnow : g.now = some now) {b : R}
    (hb : c.drainBookedUntil = some b) :
    b ≤ now ∧ ∀ a ≤ b, integral g.timeline a now =
      integral g.timeline a b + c.drainPpm * 1e-6 * (now - b) := by
  obtain ⟨now', hsome, hrun⟩ := h.running b hb
  obtain rfl := Option.some.inj (hsome.symm.trans hnow)
  exact hrun

/-- A segment at the present adds what it drains, and changes nothing of the past. -/
theorem Books.running_append (h : Books c g n) (hnow : g.now = some now) (hle : now ≤ monoS)
    {b : R} (hb : c.drainBookedUntil = some b) {a : R} (ha : a ≤ b) :
    integral (g.timeline ++ [⟨now, monoS, c.drainPpm * 1e-6⟩]) a monoS =
      integral (g.timeline ++ [⟨now, monoS, c.drainPpm * 1e-6⟩]) a b +
        c.drainPpm * 1e-6 * (monoS - b) := by
  obtain ⟨hbnow, hrun⟩ := h.running_at hnow hb
  let seg : Segment R := ⟨now, monoS, c.drainPpm * 1e-6⟩
  have hwithin : integral (g.timeline ++ [seg]) a monoS
      = integral g.timeline a monoS + seg.rate * (seg.stop - seg.start) :=
    integral_append_within (ha.trans hbnow) ((ha.trans hbnow).trans hle) hle le_rfl
  have hafter : integral (g.timeline ++ [seg]) a b = integral g.timeline a b :=
    integral_append_after hbnow (hbnow.trans hle)
  have hlater : integral g.timeline a monoS = integral g.timeline a now :=
    integral_of_ended (fun _ => h.ended_at hnow) hle
  rw [hwithin, hafter, hlater, hrun a ha]
  show _ + _ + c.drainPpm * 1e-6 * (monoS - now) = _
  ring

theorem Books.drainedBy_append (h : Books c g n) (hnow : g.now = some now) (hle : now ≤ monoS)
    (rate : R) :
    drainedBy c { g with now := some monoS, timeline := g.timeline ++ [⟨now, monoS, rate⟩] } =
      drainedBy c g := by
  funext a
  unfold drainedBy
  cases hb : c.drainBookedUntil with
  | none => rfl
  | some b =>
    have hbnow := (h.running_at hnow hb).1
    exact integral_append_after hbnow (hbnow.trans hle)

end Present

/-- Time passes. -/
theorem advance_books (h : Books c g n) (hle : ∀ now, g.now = some now → now ≤ monoS) :
    Books c (g.advance c monoS) n := by
  cases hnow : g.now with
  | none =>
    obtain ⟨hbooked, hempty, hnothing⟩ := h.before hnow
    have hadvance : g.advance c monoS = { g with now := some monoS } := by
      simp only [Ledger.advance, hnow]
    rw [hadvance]
    refine ⟨h.registers, ?_, ?_, h.idle, h.pushedBooked, ?_⟩
    · exact fun seg hseg => absurd hseg (hempty seg)
    · exact fun i pushedAt s hm => absurd hm (hnothing i pushedAt s)
    · exact fun b hb => nomatch hbooked.symm.trans hb
  | some now =>
    have hadvance : g.advance c monoS = { g with
        now := some monoS, timeline := g.timeline ++ [⟨now, monoS, c.drainPpm * 1e-6⟩] } := by
      simp only [Ledger.advance, hnow]
    have hnowle : now ≤ monoS := hle now hnow
    rw [hadvance]
    refine ⟨by rw [h.drainedBy_append hnow hnowle]; exact h.registers,
      fun seg hseg => ⟨monoS, rfl, ?_⟩,
      fun i pushedAt s hm => ⟨monoS, rfl, (h.pushed_at hnow hm).trans hnowle⟩,
      fun hb => ⟨(h.idle hb).1, fun seg hseg => ?_⟩, h.pushedBooked,
      fun b hb => ⟨monoS, rfl, (h.running_at hnow hb).1.trans hnowle,
        fun a ha => h.running_append hnow hnowle hb ha⟩⟩
    · rcases List.mem_append.mp hseg with hold | hnew
      · have hboth := h.ended_at hnow hold
        exact ⟨hboth.1.trans hnowle, hboth.2.trans hnowle⟩
      · rw [List.mem_singleton.mp hnew]
        exact ⟨hnowle, le_refl _⟩
    · rcases List.mem_append.mp hseg with hold | hnew
      · exact (h.idle hb).2 seg hold
      · rw [List.mem_singleton.mp hnew]
        show c.drainPpm * 1e-6 = 0
        rw [(h.idle hb).1, zero_mul]

/-! ## Booking -/

/-- The effects of booking the drain on the clock's books: `c'` is `c` with `x` seconds more
booked, at the present. -/
theorem booked_books {c' : MultiController R} {b x : R} (h : Books c g n)
    (hnow : g.now = some monoS) (hb : c.drainBookedUntil = some b)
    (hx : x = c.drainPpm * 1e-6 * (monoS - b))
    (hregs : Holds c'.registers n fun i =>
      (accounts (drainedBy c g) i g.journal).map (reexpress monoS 0 x))
    (hb' : c'.drainBookedUntil = some monoS) : Books c' g n := by
  obtain ⟨hbnow, hrun⟩ := h.running_at hnow hb
  have hbooked : ∀ i a s, Entry.pushed i a s ∈ g.journal →
      drainedBy c' g a = drainedBy c g a + x := by
    intro i a s hm
    simp only [drainedBy, hb, hb']
    rw [hrun a (h.pushedBooked b hb i a s hm), hx]
  refine ⟨?_, h.ended, h.pushed, ?_, ?_, fun b' hsome => ⟨monoS, hnow, ?_⟩⟩
  · have hexp : (fun i => accounts (drainedBy c' g) i g.journal) = fun i =>
        (accounts (drainedBy c g) i g.journal).map (reexpress monoS 0 x) :=
      funext fun i => accounts_booked _ _ x monoS i hbooked
    rw [hexp]
    exact hregs
  · intro hnone
    rw [hb'] at hnone
    cases hnone
  · intro b' hsome i a s hm
    rw [hb'] at hsome
    cases hsome
    exact (h.pushedBooked b hb i a s hm).trans hbnow
  · rw [hb'] at hsome
    cases hsome
    exact ⟨le_rfl, fun a _ => by rw [sub_self, mul_zero, add_zero]⟩

/-- `settle_drain` books what has run, on every register. -/
theorem settleDrain_books (h : Books c g n) (hnow : g.now = some monoS) :
    Books (c.settleDrain monoS) g n ∧ BookedAt (c.settleDrain monoS) monoS := by
  have hregs : Holds (c.settleDrain monoS).registers n fun i =>
      (accounts (drainedBy c g) i g.journal).map (reexpress monoS 0 (c.drained monoS)) := by
    rw [settleDrain_registers]
    exact h.registers.slew monoS 0 (c.drained monoS)
  cases hb : c.drainBookedUntil with
  | none =>
    have hnone : (c.settleDrain monoS).drainBookedUntil = none := by simp [hb]
    have hzero : c.drained monoS = 0 := by
      unfold drained
      rw [hb]
    have hdrained : drainedBy (c.settleDrain monoS) g = drainedBy c g := by
      funext a
      simp only [drainedBy, hb, hnone]
    refine ⟨⟨?_, h.ended, h.pushed, ?_, ?_, ?_⟩, .inl hnone⟩
    · have hexp : (fun i => accounts (drainedBy (c.settleDrain monoS) g) i g.journal) = fun i =>
          (accounts (drainedBy c g) i g.journal).map (reexpress monoS 0 (c.drained monoS)) := by
        funext i
        rw [hzero]
        exact accounts_booked _ _ 0 monoS i fun i a s hm => by rw [hdrained, add_zero]
      rw [hexp]
      exact hregs
    · intro _
      rw [settleDrain_drainPpm]
      exact h.idle hb
    · intro b hsome
      rw [hnone] at hsome
      cases hsome
    · intro b hsome
      rw [hnone] at hsome
      cases hsome
  | some b =>
    have hsome : (c.settleDrain monoS).drainBookedUntil = some monoS := by simp [hb]
    obtain ⟨now, hnow', hle, -⟩ := h.running b hb
    rw [hnow] at hnow'
    cases hnow'
    exact ⟨booked_books h hnow hb (drained_eq hb hle) hregs hsome, .inr hsome⟩

/-- `poll_drain` books what has run since the last booking, late or not. -/
theorem retireDrain_books {last : R} (h : Books c g n) (hnow : g.now = some monoS)
    (hb : c.drainBookedUntil = some last) : Books (c.retireDrain last monoS) g n := by
  obtain ⟨now, hnow', hle, -⟩ := h.running last hb
  rw [hnow] at hnow'
  cases hnow'
  refine booked_books h hnow hb (drained_eq hb hle) ?_ rfl
  rw [retireDrain_registers hb]
  exact h.registers.slew monoS 0 (c.drained monoS)

theorem pollDrain_books (h : Books c g n) (hnow : g.now = some monoS) :
    Books (c.pollDrain monoS).1 g n := by
  unfold pollDrain
  split
  · exact h
  · split
    · exact h
    · split
      · exact h
      · next last hb => exact retireDrain_books h hnow hb

/-! ## Measuring, steering, taking back -/

theorem drainedBy_of_bookedAt (h : BookedAt c monoS) : drainedBy c g monoS = 0 := by
  rcases h with hb | hb
  · simp only [drainedBy, hb]
  · simp only [drainedBy, hb, integral_self]

/-- `observe` books the drain and pushes one sample. -/
theorem observe_books (std : StdFloat R) (index : ℕ) (sample : Sample R) (h : Books c g n)
    (hnow : g.now = some monoS) :
    Books (c.observe std index monoS sample).1
        { g with journal := g.journal ++ [.pushed index monoS sample] } n ∧
      BookedAt (c.observe std index monoS sample).1 monoS := by
  obtain ⟨hsettled, hbooked⟩ := settleDrain_books h hnow
  let c' := c.settleDrain monoS
  let pushed : MultiController R :=
    { c' with registers := c'.registers.modify index fun r => r.push sample }
  have hobserve : c.observe std index monoS sample = pushed.estimate std index monoS := rfl
  -- the estimate reads a register and caches its weights
  have hsame : (pushed.estimate std index monoS).1.drainBookedUntil = c'.drainBookedUntil ∧
      (pushed.estimate std index monoS).1.drainPpm = c'.drainPpm := by
    obtain ⟨registers, h⟩ := exists_registers_estimate std pushed index monoS
    rw [h]
    exact ⟨rfl, rfl⟩
  have hdrained : ∀ journal, drainedBy (pushed.estimate std index monoS).1 { g with journal }
      = drainedBy c' g := by
    intro journal
    funext a
    simp only [drainedBy, hsame.1]
  have hentry : ∀ i a s, Entry.pushed i a s ∈ g.journal ++ [.pushed index monoS sample] →
      Entry.pushed i a s ∈ g.journal ∨ a = monoS := by
    intro i a s hm
    rcases List.mem_append.mp hm with hold | hnew
    · exact .inl hold
    · cases List.mem_singleton.mp hnew
      exact .inr rfl
  rw [hobserve]
  refine ⟨⟨?_, hsettled.ended, fun i a s hm => ⟨monoS, hnow, ?_⟩, ?_, ?_, ?_⟩, ?_⟩
  · refine Holds.estimate (c := pushed) ?_ std index monoS
    have hexp : (fun i => accounts (drainedBy (pushed.estimate std index monoS).1
        { g with journal := g.journal ++ [.pushed index monoS sample] }) i
          (g.journal ++ [.pushed index monoS sample]))
        = fun i => accounts (drainedBy c' g) i g.journal ++
            if index = i then [sample] else [] := by
      funext i
      rw [hdrained, accounts_pushed _ _ _ _ _ (drainedBy_of_bookedAt hbooked)]
    rw [hexp]
    exact hsettled.registers.push index sample
  · rcases hentry i a s hm with hold | rfl
    · obtain ⟨now, hnow', hle⟩ := hsettled.pushed i a s hold
      rw [hnow] at hnow'
      cases hnow'
      exact hle
    · exact le_rfl
  · intro hnone
    rw [hsame.2]
    exact hsettled.idle (hsame.1 ▸ hnone)
  · intro b hb i a s hm
    have hb' : c'.drainBookedUntil = some b := hsame.1 ▸ hb
    rcases hentry i a s hm with hold | rfl
    · exact hsettled.pushedBooked b hb' i a s hold
    · rcases hbooked with hnone | hsome
      · exact nomatch hnone.symm.trans hb'
      · exact le_of_eq (Option.some.inj (hsome.symm.trans hb'))
  · intro b hb
    rw [hsame.2]
    exact hsettled.running b (hsame.1 ▸ hb)
  · rw [BookedAt, hsame.1]
    exact hbooked

/-- `steer` re-expresses every register by its plan and restarts the drain, all booked. -/
theorem steer_books (est : Estimate R) (leapPending : Bool) (h : Books c g n)
    (hnow : g.now = some monoS) (hbooked : BookedAt c monoS) :
    Books (c.steer est monoS leapPending).1
      { g with journal := journalStep c g.journal (.steer est monoS leapPending) } n := by
  have hdrained : ∀ journal a,
      drainedBy (c.steer est monoS leapPending).1 { g with journal } a = drainedBy c g a := by
    intro journal a
    show integral g.timeline a monoS = drainedBy c g a
    rcases hbooked with hb | hb
    · simp only [drainedBy, hb, integral_of_rate_eq_zero (h.idle hb).2]
    · simp only [drainedBy, hb]
  have hpushed : ∀ i a s, Entry.pushed i a s ∈
      journalStep c g.journal (.steer est monoS leapPending) → a ≤ monoS := by
    intro i a s hm
    rcases List.mem_append.mp hm with hold | hnew
    · obtain ⟨now, hnow', hle⟩ := h.pushed i a s hold
      rw [hnow] at hnow'
      cases hnow'
      exact hle
    · cases List.mem_singleton.mp hnew
  refine ⟨?_, h.ended, fun i a s hm => ⟨monoS, hnow, hpushed i a s hm⟩, ?_,
    ?_, fun b hb => ⟨monoS, hnow, ?_⟩⟩
  · have hexp : (fun i => accounts (drainedBy (c.steer est monoS leapPending).1
        { g with journal := journalStep c g.journal (.steer est monoS leapPending) }) i
          (journalStep c g.journal (.steer est monoS leapPending)))
        = fun i => (accounts (drainedBy c g) i g.journal).map (reexpress monoS
            ((c.steer est monoS leapPending).1.freqCmdPpm - c.freqCmdPpm)
            (stepOf (c.steer est monoS leapPending).2.plan.command)) := by
      funext i
      rw [accounts_congr i fun j a s _ => hdrained _ a]
      exact accounts_planned _ _ _ _ _ _
    rw [hexp]
    exact h.registers.slew monoS _ _
  · intro hnone
    cases hnone
  · intro b hb i a s hm
    cases hb
    exact hpushed i a s hm
  · cases hb
    exact ⟨le_rfl, fun a _ => by rw [sub_self, mul_zero, add_zero]⟩

/-- What a `steer` leaves for the `revertLastPlan` that may follow it. -/
def Revertible (c : MultiController R) (g : Ledger R) : Prop :=
  ∃ u monoS journal, c.unapplied = some u ∧ g.now = some monoS ∧
    c.drainBookedUntil = some monoS ∧
    g.journal = journal ++ [.planned u.monoS u.dfreqPpm u.stepS]

theorem reexpress_neg (tChange dfreqPpm doffset : R) (samples : List (Sample R)) :
    (samples.map (reexpress tChange dfreqPpm doffset)).map
      (reexpress tChange (-dfreqPpm) (-doffset)) = samples := by
  rw [List.map_map]
  refine List.map_id'' (fun s => ?_) samples
  show reexpress _ _ _ (reexpress _ _ _ s) = s
  unfold reexpress
  congr 1
  ring

/-- `revert_last_plan` is the inverse of the plan on every register. -/
theorem revertLastPlan_books (h : Books c g n) (hr : Revertible c g) :
    Books c.revertLastPlan.1 { g with journal := g.journal.dropLast } n := by
  obtain ⟨u, monoS, journal, hu, hnow, hb, hjournal⟩ := hr
  have hdrop : g.journal.dropLast = journal := by rw [hjournal, List.dropLast_concat]
  have hmem : ∀ i a s, Entry.pushed i a s ∈ journal → Entry.pushed i a s ∈ g.journal := by
    intro i a s hm
    rw [hjournal]
    exact List.mem_append_left _ hm
  have hrevert : c.revertLastPlan.1 =
      { c.slewRegisters u.monoS (-u.dfreqPpm) (-u.stepS) with
        freqCmdPpm := u.freqCmdBefore
        drainPpm := u.drainPpmBefore
        drainRemainingS := u.drainRemainingBefore
        unapplied := none } := by
    simp only [revertLastPlan, hu]
  rw [hdrop, hrevert]
  refine ⟨?_, h.ended, fun i a s hm => h.pushed i a s (hmem i a s hm), ?_,
    fun b hb' i a s hm => h.pushedBooked b hb' i a s (hmem i a s hm),
    fun b hb' => ⟨monoS, hnow, ?_⟩⟩
  · have hslewed := h.registers.slew u.monoS (-u.dfreqPpm) (-u.stepS)
    simp only [hjournal, accounts_planned, reexpress_neg] at hslewed
    exact hslewed
  · intro hnone
    exact nomatch hb.symm.trans hnone
  · cases hb.symm.trans hb'
    exact ⟨le_rfl, fun a _ => by rw [sub_self, mul_zero, add_zero]⟩

/-! ## Every run -/

/-- What is known after an operation, for the one that may follow it. -/
def After (c : MultiController R) (g : Ledger R) : Option (Op R) → Prop
  | some (.observe _ monoNowS _) => g.now = some monoNowS ∧ BookedAt c monoNowS
  | some (.steer _ _ _) => Revertible c g
  | _ => True

theorem step_books (std : StdFloat R) {previous : Option (Op R)} {op : Op R} (h : Books c g n)
    (hafter : After c g previous) (hfollow : op.MayFollow previous)
    (hle : ∀ now monoS, g.now = some now → op.monoS? = some monoS → now ≤ monoS) :
    Books (step std c op) (g.record c op) n ∧ After (step std c op) (g.record c op) (some op) := by
  cases op with
  | observe index monoNowS sample =>
    have hadv := advance_books h fun now hnow => hle now monoNowS hnow rfl
    obtain ⟨hbooks, hbooked⟩ := observe_books std index sample hadv rfl
    exact ⟨hbooks, rfl, hbooked⟩
  | steer est monoNowS leapPending =>
    obtain ⟨index, sample, rfl⟩ := hfollow
    obtain ⟨hnow, hbooked⟩ := hafter
    have hadv := advance_books h fun now hnow => hle now monoNowS hnow rfl
    refine ⟨steer_books est leapPending hadv rfl hbooked, ?_⟩
    exact ⟨_, monoNowS, g.journal, rfl, rfl, rfl, rfl⟩
  | pollDrain monoNowS =>
    have hadv := advance_books h fun now hnow => hle now monoNowS hnow rfl
    exact ⟨pollDrain_books hadv rfl, trivial⟩
  | confirmLastPlan =>
    exact ⟨⟨h.registers, h.ended, h.pushed, h.idle, h.pushedBooked, h.running⟩, trivial⟩
  | revertLastPlan =>
    obtain ⟨est, monoNowS, leap, rfl⟩ := hfollow
    exact ⟨revertLastPlan_books h hafter, trivial⟩

theorem run_books (std : StdFloat R) {previous : Option (Op R)} {ops : List (Op R)}
    (h : Books c g n) (hafter : After c g previous) (hcalled : WellCalled previous ops)
    (htimed : WellTimed g.now ops) :
    Books (run std c ops) (ledgerFrom std c g ops) n := by
  induction ops generalizing c g previous with
  | nil => exact h
  | cons op ops ih =>
    obtain ⟨hfollow, hcalled⟩ := hcalled
    obtain ⟨hbooks, hafter'⟩ := step_books std h hafter hfollow fun now monoS hnow hop =>
      wellTimed_le htimed hnow hop
    refine ih hbooks hafter' hcalled ?_
    have hnow : (g.record c op).now = op.monoS?.or g.now := by
      cases op <;> rfl
    rw [hnow]
    exact wellTimed_tail htimed

/--
**The ledger describes what the clock did.** In every run whose operations come in a proper
order at times that do not go back, each register is the window of its accounts: every stored
sample has its pushed offset, less the drain from its push to the last booking at the rates the
controller carried, less the steps and the tilts of the plans made since and not reverted.

Before the first plan there is no booking instant. Nothing has drained then, and any instant
does for `bookedUntil`.
-/
theorem run_accounts (std : StdFloat R) (config : DisciplineConfig R) (sources : ℕ)
    (ops : List (Op R)) (hcalled : WellCalled none ops) (htimed : WellTimed none ops)
    (index : ℕ) (hindex : index < max sources 1) (bookedUntil : R) :
    let c := run std (new config sources) ops
    let g := ledger std (new config sources) ops
    ∃ reg, c.registers[index]? = some reg ∧
      reg.window
        = lastN registerCapacity (g.accounts (c.drainBookedUntil.getD bookedUntil) index) := by
  intro c g
  have h : Books c g (max sources 1) :=
    run_books std (new_books config sources) (show After _ _ none from trivial) hcalled htimed
  have hlt : index < c.registers.length := by rw [h.registers.length]; exact hindex
  refine ⟨c.registers[index], List.getElem?_eq_getElem hlt, ?_⟩
  rw [(h.registers.tracks index _ (List.getElem?_eq_getElem hlt)).window]
  have hdrained : drainedBy c g
      = fun monoS => integral g.timeline monoS (c.drainBookedUntil.getD bookedUntil) := by
    funext a
    unfold drainedBy
    cases hb : c.drainBookedUntil with
    | none => exact (integral_of_rate_eq_zero (h.idle hb).2).symm
    | some b => rfl
  rw [hdrained]
  rfl

/-- Two sources: a step, a drain booked by an `observe` and by a late `pollDrain`, and a plan
that is taken back. -/
theorem run_accounts_reverted :
    let ops : List (Op ℚ) :=
      [.observe 0 0 ⟨0, 2, 1 / 10, 0⟩, .steer ⟨2, none, 1 / 20, 1⟩ 0 false, .confirmLastPlan,
        .observe 1 10 ⟨9, 1 / 2, 1 / 10, 0⟩, .steer ⟨1 / 2, none, 1 / 20, 1⟩ 10 false,
        .observe 0 12 ⟨11, 3, 1 / 10, 0⟩, .steer ⟨3, none, 1 / 20, 1⟩ 12 false, .revertLastPlan,
        .pollDrain 100]
    ∃ reg, (run ⟨id, id, fun _ _ => none⟩ (new .default 2) ops).registers[0]? = some reg ∧
      reg.window.map (fun s => s.offset) = ([-749997 / 100000, -541663 / 125000] : List ℚ) := by
  intro ops
  obtain ⟨reg, hreg, hwindow⟩ := run_accounts ⟨id, id, fun _ _ => none⟩ .default 2 ops
    ⟨trivial, ⟨_, _, rfl⟩, trivial, trivial, ⟨_, _, rfl⟩, trivial, ⟨_, _, rfl⟩, ⟨_, _, _, rfl⟩,
      trivial, trivial⟩
    (by unfold WellTimed; decide +kernel) 0 (by decide) 0
  refine ⟨reg, hreg, ?_⟩
  rw [hwindow]
  decide +kernel

end RustyTime.MultiController
