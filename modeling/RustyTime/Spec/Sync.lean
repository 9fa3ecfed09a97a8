import RustyTime.Daemon.Sync

/-!
# Runs of the sync loop, and what of them is on record

A run is any sequence of events; the loop's own turns are some of these (`turn_eq_run`). The
record keeps what the published views are compared with: the plans published so far, and when
the served view was last checked for staleness. Keeping it changes nothing in the loop
(`run_loop`).
-/

namespace RustyTime

variable {R : Type}

/-- The plan was accepted, and the driver took it. -/
def Decision.Steered (d : Decision R) : Prop := d.verdict = .accepted ∧ d.answer = some true

/-- A run, and its record. -/
structure SyncTrace (R : Type) where
  loop : SyncLoop R
  /-- Latest first. -/
  published : List (Decision R)
  /-- The latest staleness check. -/
  checkedS : Option R

/-- The plan an event published, if it did. -/
def Deed.decision : Deed R → Option (Decision R)
  | .published d => some d
  | _ => none

/-- The command an iteration had for the driver. -/
def Deed.command : Deed R → ClockCommand R
  | .retired command => command
  | .held command => command
  | .published d => d.command

/-- A plan or the end of a drain, which the controller's books are kept by. -/
def Deed.Booked : Deed R → Prop
  | .held _ => False
  | _ => True

instance (deed : Deed R) : Decidable deed.Booked :=
  match deed with
  | .held _ => isFalse id
  | .retired _ => isTrue trivial
  | .published _ => isTrue trivial

/-- The seconds a plan steps by, if it steps. -/
def Deed.steps : Deed R → Option R
  | .published d =>
    match d.command with
    | .step addSeconds => some addSeconds
    | .slew _ _ _ => none
  | _ => none

/-- The driver's answer to what the event has for it. -/
def SyncEvent.ok : SyncEvent R → Bool
  | .head _ _ ok => ok
  | .poll _ p => p.ok

/-- The staleness check an event makes. -/
def SyncEvent.checkedS : SyncEvent R → Option R
  | .head checkedS _ _ => some checkedS
  | .poll _ _ => none

/-- When an event publishes, if it does. -/
def SyncEvent.doneS : SyncEvent R → Option R
  | .head _ _ _ => none
  | .poll _ p => some p.doneS

/-- `Instant`s do not go back: what is published comes after the checks before it. -/
def SyncEvent.WellTimed [LE R] (evs : List (SyncEvent R)) : Prop :=
  evs.Pairwise fun a b => ∀ checkedS ∈ a.checkedS, ∀ doneS ∈ b.doneS, checkedS ≤ doneS

/-- A reply that took `delayNs`, stamped `aheadS` seconds and `aheadNs` by a clock asked at 0. -/
def Received.ahead (stratum : UInt8) (aheadS : Int64) (aheadNs : UInt32) (delayNs : Int)
    (monoS : R) : Received R where
  packet :=
    { NtpPacket.clientRequest 4 .zero with
      mode := .server
      stratum := stratum
      receiveTs := .fromUnix aheadS aheadNs
      transmitTs := .fromUnix aheadS aheadNs }
  t1Ns := 0
  t4Ns := delayNs
  t1MonoS := monoS
  t4MonoS := monoS

/-- A poll at `t` of a server at hand, the driver answering `ok`. -/
def Poll.prompt (t : R) (reply : Option (Received R)) (ok : Bool) : Poll R where
  nowS := t
  reply := reply
  monoS := some t
  rescheduledS := t
  ok := ok
  peer := some #v[192, 0, 2, 1]
  doneS := t

variable [Field R] [LinearOrder R]

/-- What the selection reads of a source: its offset, if it has one. -/
def Source.reading (source : Source R) : R × Bool := (source.lastOffsetS, source.hasEstimate)

/-- A reply that is accepted does not change what the selection reads. -/
theorem accept_reading {source : Source R} {r : Received R}
    {accepted : Source R × Sample R × UInt8 × R} (h : source.accept r = some accepted) :
    accepted.1.reading = source.reading := by
  unfold Source.accept at h
  split at h
  · exact nomatch h
  · dsimp only at h
    split at h
    · exact nomatch h
    · cases h
      rfl

theorem map_set_of_same {α β : Type} {f : α → β} {l : List α} {i : Nat} {a b : α}
    (h : l[i]? = some a) (hab : f b = f a) : (l.set i b).map f = l.map f := by
  obtain ⟨hi, rfl⟩ := List.getElem?_eq_some_iff.mp h
  rw [List.map_set, hab]
  refine List.ext_getElem? fun j => ?_
  by_cases hj : i = j
  · subst hj
    simp [hi]
  · simp [List.getElem?_set_ne hj]

variable [FloorRing R]

namespace SyncLoop

def run (opts : SyncOptions R) (std : StdFloat R) (nominalTickUs : Int) (s : SyncLoop R)
    (evs : List (SyncEvent R)) : SyncLoop R :=
  evs.foldl (fun s ev => (s.step opts std nominalTickUs ev).1) s

/-- The events of one turn from `s`. -/
def turnEvents (opts : SyncOptions R) (std : StdFloat R) (nominalTickUs : Int) (s : SyncLoop R)
    (t : Turn R) : List (SyncEvent R) :=
  let head := SyncEvent.head t.checkedS t.monoS t.retireOk
  let s := (s.step opts std nominalTickUs head).1
  if 0 < s.wait opts t.nowS t.monoS then [head]
  else head :: (List.range s.sources.length).map fun index => .poll index (t.polls index)

/-- What the controller believes is running is what the driver was told to run, up to the
quantum of its frequency field. -/
def Tracks (nominalTickUs : Int) (s : SyncLoop R) : Prop :=
  |s.driver.installedPpm nominalTickUs - s.ctl.appliedPpm| < 1 / 65536

/-- The clock runs at the permanent frequency alone: no drain is installed. -/
def Undrained (nominalTickUs : Int) (s : SyncLoop R) : Prop :=
  |s.driver.installedPpm nominalTickUs - s.ctl.freqCmdPpm| < 1 / 65536

instance (nominalTickUs : Int) (s : SyncLoop R) : Decidable (s.Tracks nominalTickUs) :=
  inferInstanceAs (Decidable (_ < _))

instance (nominalTickUs : Int) (s : SyncLoop R) : Decidable (s.Undrained nominalTickUs) :=
  inferInstanceAs (Decidable (_ < _))

/-- What a poll brings to the selection: the sources and the controller as they then stand, and
the estimate of the source that answered. -/
structure Heard (R : Type) where
  index : Nat
  source : Source R
  sources : List (Source R)
  ctl : MultiController R
  est : Estimate R
  monoS : R

/-- The poll of the source at `index`, as far as the selection. -/
def heard (std : StdFloat R) (s : SyncLoop R) (index : Nat) (p : Poll R) : Option (Heard R) :=
  match s.sources[index]? with
  | none => none
  | some source =>
    if p.nowS < source.due then none
    else
      match p.reply.bind source.accept, p.monoS with
      | some (source, sample, stratum, rootDistance), some monoS =>
        let (ctl, est) := s.ctl.observe std index monoS sample
        let source := source.record est stratum rootDistance
        some
          { index := index, source := source, sources := s.sources.set index source, ctl := ctl
            est := est, monoS := monoS }
      | _, _ => none

/-- What an event brings to the selection, if it comes to one. -/
def hears (std : StdFloat R) (s : SyncLoop R) (ev : SyncEvent R) : Option (Heard R) :=
  if s.exited then none
  else
    match ev with
    | .head _ _ _ => none
    | .poll index p => s.heard std index p

/-- The plan an event makes, if its source is selected. -/
def plans (std : StdFloat R) (s : SyncLoop R) (ev : SyncEvent R) : Option (Plan R) :=
  (s.hears std ev).bind fun h =>
    if selectedIndex h.sources = some h.index then
      some (h.ctl.steer h.est h.monoS h.source.leapPending).2.plan
    else none

/-! ## What each stage changes -/

omit [FloorRing R] in
theorem expire_eq (opts : SyncOptions R) (s : SyncLoop R) (checkedS : R) :
    ∃ served servedSyncedAt, s.expire opts checkedS =
      { s with served := served, servedSyncedAt := servedSyncedAt } := by
  unfold expire
  split
  · split <;> exact ⟨_, _, rfl⟩
  · exact ⟨_, _, rfl⟩

/-- A drain that retires goes through the controller, and is not published. -/
theorem retire_eq (opts : SyncOptions R) (nominalTickUs : Int) (s : SyncLoop R) (monoS : R)
    (ok : Bool) :
    ∃ driver refusedInARow drainsRetired deed,
      s.retire opts nominalTickUs monoS ok =
        ({ s with
            ctl := if opts.stopDrains then (s.ctl.pollDrain monoS).1 else s.ctl
            driver := driver
            refusedInARow := refusedInARow
            drainsRetired := drainsRetired }, deed) ∧
        deed.bind Deed.decision = none := by
  unfold retire
  cases opts.stopDrains with
  | false => exact ⟨_, _, _, none, rfl, rfl⟩
  | true =>
    simp only [Bool.not_true, Bool.false_eq_true, if_false, if_true]
    rcases s.ctl.pollDrain monoS with ⟨ctl, - | command⟩
    · exact ⟨_, _, _, none, rfl, rfl⟩
    · dsimp only
      split
      · exact ⟨_, _, _, some (.retired command), rfl, rfl⟩
      · split <;> exact ⟨_, _, _, some (.retired command), rfl, rfl⟩

theorem holdIfNoMajority_eq (opts : SyncOptions R) (nominalTickUs : Int) (s : SyncLoop R)
    (selected : Option Nat) (ok : Bool) :
    ∃ holding driver deed,
      s.holdIfNoMajority opts nominalTickUs selected ok =
        ({ s with holding := holding, driver := driver }, deed) ∧
        deed.bind Deed.decision = none := by
  unfold holdIfNoMajority
  split
  · exact ⟨_, _, none, rfl, rfl⟩
  · split
    · exact ⟨_, _, none, rfl, rfl⟩
    · dsimp only
      split <;> exact ⟨_, _, some (.held _), rfl, rfl⟩

omit [FloorRing R] in
theorem publish_eq (s : SyncLoop R) (source : Source R) (step : ControllerStep R)
    (answer : Option Bool) (p : Poll R) :
    ∃ tracking served servedSyncedAt, s.publish source step answer p =
      { s with tracking := tracking, served := served, servedSyncedAt := servedSyncedAt } := by
  unfold publish serve
  dsimp only
  split
  · split <;> exact ⟨_, _, _, rfl⟩
  · exact ⟨_, _, _, rfl⟩

/-- What is heard is selected from; what is not leaves the selection uncalled. -/
theorem poll_eq (opts : SyncOptions R) (std : StdFloat R) (nominalTickUs : Int) (s : SyncLoop R)
    (index : Nat) (p : Poll R) :
    match s.heard std index p with
    | some h => s.poll opts std nominalTickUs index p =
        { s with ctl := h.ctl, sources := h.sources }.choose opts nominalTickUs index h.source
          h.est h.monoS p
    | none => ∃ sources : List (Source R), s.poll opts std nominalTickUs index p =
        ({ s with sources := sources }, none) ∧
          sources.map Source.reading = s.sources.map Source.reading := by
  unfold heard poll
  cases hsource : s.sources[index]? with
  | none => exact ⟨s.sources, rfl, rfl⟩
  | some source =>
    dsimp only
    by_cases hdue : p.nowS < source.due
    · simp only [hdue, if_true]
      exact ⟨s.sources, rfl, rfl⟩
    · simp only [hdue, if_false]
      cases haccept : p.reply.bind source.accept with
      | none => exact ⟨_, rfl, map_set_of_same hsource rfl⟩
      | some accepted =>
        cases p.monoS with
        | some monoS => rfl
        | none =>
          obtain ⟨r, -, hr⟩ := Option.bind_eq_some_iff.mp haccept
          exact ⟨_, rfl, map_set_of_same hsource (accept_reading hr)⟩

/-- A poll that is heard comes to a selection. -/
theorem poll_of_heard (opts : SyncOptions R) (nominalTickUs : Int) {std : StdFloat R}
    {s : SyncLoop R} {index : Nat} {p : Poll R} {h : Heard R}
    (hheard : s.heard std index p = some h) :
    s.poll opts std nominalTickUs index p =
      { s with ctl := h.ctl, sources := h.sources }.choose opts nominalTickUs index h.source h.est
        h.monoS p := by
  have hpoll := s.poll_eq opts std nominalTickUs index p
  rw [hheard] at hpoll
  exact hpoll

/-- A poll that is not leaves the clock and what the selection reads. -/
theorem poll_of_unheard (opts : SyncOptions R) (nominalTickUs : Int) {std : StdFloat R}
    {s : SyncLoop R} {index : Nat} {p : Poll R} (hheard : s.heard std index p = none) :
    ∃ sources : List (Source R),
      s.poll opts std nominalTickUs index p = ({ s with sources := sources }, none) ∧
        sources.map Source.reading = s.sources.map Source.reading := by
  have hpoll := s.poll_eq opts std nominalTickUs index p
  rw [hheard] at hpoll
  exact hpoll

/-- A turn of the loop is a run. -/
theorem turn_eq_run (opts : SyncOptions R) (std : StdFloat R) (nominalTickUs : Int)
    (s : SyncLoop R) (t : Turn R) :
    s.turn opts std nominalTickUs t =
      s.run opts std nominalTickUs (s.turnEvents opts std nominalTickUs t) := by
  unfold turn turnEvents run
  dsimp only
  split
  · rfl
  · rw [List.foldl_cons, List.foldl_map]

end SyncLoop

namespace SyncTrace

def step (opts : SyncOptions R) (std : StdFloat R) (nominalTickUs : Int) (t : SyncTrace R)
    (ev : SyncEvent R) : SyncTrace R :=
  if t.loop.exited then t
  else
    let (loop, deed) := t.loop.step opts std nominalTickUs ev
    { loop := loop
      published := (deed.bind Deed.decision).toList ++ t.published
      checkedS := ev.checkedS <|> t.checkedS }

def run (opts : SyncOptions R) (std : StdFloat R) (nominalTickUs : Int) (t : SyncTrace R)
    (evs : List (SyncEvent R)) : SyncTrace R :=
  evs.foldl (step opts std nominalTickUs) t

/-- A loop that has just been entered. -/
def start (opts : SyncOptions R) (sources : List (Source R)) (nominalTickUs : Int) (now : R) :
    SyncTrace R where
  loop := SyncLoop.start opts sources nominalTickUs now
  published := []
  checkedS := none

theorem run_loop (opts : SyncOptions R) (std : StdFloat R) (nominalTickUs : Int)
    (evs : List (SyncEvent R)) (t : SyncTrace R) :
    (t.run opts std nominalTickUs evs).loop = t.loop.run opts std nominalTickUs evs := by
  induction evs generalizing t with
  | nil => rfl
  | cons ev evs ih =>
    rw [run, SyncLoop.run, List.foldl_cons, List.foldl_cons]
    refine (ih _).trans (congrArg (SyncLoop.run opts std nominalTickUs · evs) ?_)
    unfold step SyncLoop.step
    split
    · rfl
    · rfl

end SyncTrace

end RustyTime
