import RustyTime.Clock.Linux
import RustyTime.Core.Client
import RustyTime.Core.Select
import RustyTime.Daemon.Server

/-!
# `rtimed sync`

`rusty_time-daemon/src/sync.rs`: the loop that polls the sources, steers the clock from the
selected one, and publishes what it did. What the loop reads from outside (clocks, replies,
the driver's answers) comes in as the inputs of a turn, so a run is a fold over its turns.

An `Instant` is its seconds in `R`. Printing, the control socket's thread and the opening of
the sources are left out; so is a lock that fails, which a poisoned mutex alone can do.
-/

namespace RustyTime

/-- The options the loop reads. -/
structure SyncOptions (R : Type) where
  dryRun : Bool
  discipline : DisciplineConfig R
  /-- `--serve` was given. -/
  serves : Bool
  /-- `RUSTY_TIME_NO_DRAIN_STOP` is not set. -/
  stopDrains : Bool

/-! ## Sources -/

structure Source (R : Type) where
  /-- When the next poll is due. -/
  due : R
  lastOffsetS : R
  lastRootDistanceS : R
  lastStratum : UInt8
  hasEstimate : Bool
  exchanges : Nat
  lost : Nat
  /-- Losses since the last successful exchange. -/
  lostInARow : Nat
  leapPending : Bool

/-- A reply that answers the request in flight, and the clock readings around it. -/
structure Received (R : Type) where
  packet : NtpPacket
  t1Ns : Int
  t4Ns : Int
  t1MonoS : R
  t4MonoS : R

namespace Source

variable {R : Type} [Field R] [LinearOrder R]

/-- A source just opened by `open_source`. -/
def opened (now : R) : Source R where
  due := now
  lastOffsetS := 0
  lastRootDistanceS := 1
  lastStratum := 16
  hasEstimate := false
  exchanges := 0
  lost := 0
  lostInARow := 0
  leapPending := false

/-- Whether a reply's packet is a usable time source. -/
def usable (packet : NtpPacket) : Bool :=
  !(packet.stratum == 0 || 15 < packet.stratum || packet.leap == .unsynchronized) &&
    !(packet.transmitTs.isZero || packet.receiveTs.isZero)

/-- The end of `exchange`: the sample, the stratum and the root distance. The timestamps are
taken relative to T1. -/
def accept (source : Source R) (r : Received R) : Option (Source R × Sample R × UInt8 × R) :=
  if !usable r.packet then none
  else
    let t1Ntp := NtpTimestamp.fromUnix (Int64.ofInt (r.t1Ns / 1000000000))
      (UInt32.ofNat (r.t1Ns % 1000000000).toNat)
    let t2 : R := r.packet.receiveTs.secondsSince t1Ntp
    let t3 : R := r.packet.transmitTs.secondsSince t1Ntp
    let t4 : R := ((r.t4Ns - r.t1Ns : Int) : R) * 1e-9
    let (offset, delay) := offsetDelay 0 t2 t3 t4
    if delay < 0 then none
    else
      let leapPending :=
        r.packet.leap == .lastMinute61 || r.packet.leap == .lastMinute59
      let dispersion : R := r.packet.rootDispersion.toSeconds
      let rootDistance := r.packet.rootDelay.toSeconds / 2.0 + dispersion + delay / 2.0
      some ({ source with leapPending := leapPending },
        { t := (r.t1MonoS + r.t4MonoS) / 2.0, offset := offset, delay := delay
          dispersion := dispersion },
        r.packet.stratum, rootDistance)

/-- What a successful exchange records. -/
def record (source : Source R) (est : Estimate R) (stratum : UInt8) (rootDistance : R) :
    Source R :=
  { source with
    exchanges := source.exchanges + 1
    lostInARow := 0
    lastOffsetS := est.offsetS
    lastRootDistanceS := rootDistance + est.sdS
    lastStratum := stratum
    hasEstimate := true }

/-- What a lost exchange records. The count of losses in a row saturates. -/
def lose (source : Source R) (due : R) : Source R :=
  { source with
    lost := source.lost + 1
    lostInARow := min (source.lostInARow + 1) 4294967295
    due := due }

end Source

/-! ## Selection -/

/-- `UNREACHABLE_AFTER`. -/
def unreachableAfter : Nat := 4

section Selection

variable {R : Type} [Field R] [LinearOrder R]

/-- A source's estimate, under its index. -/
def Source.estimate (s : Source R) (id : Nat) : SourceEstimate R :=
  { id := id, offset := s.lastOffsetS, rootDistance := max s.lastRootDistanceS 1e-9
    stratum := s.lastStratum.toNat }

/-- The estimates the selection is made from. -/
def estimates (sources : List (Source R)) : List (SourceEstimate R) :=
  (sources.zipIdx.filter fun p => p.1.hasEstimate).map fun p => p.1.estimate p.2

/-- `selected_index`. -/
def selectedIndex (sources : List (Source R)) : Option Nat :=
  let answering := sources.countP fun s => s.hasEstimate || decide (s.lostInARow < unreachableAfter)
  let heard := sources.countP fun s => s.hasEstimate
  if 1 < answering ∧ heard * 2 ≤ answering then none
  else if (estimates sources).isEmpty then none
  else (select (estimates sources)).truechimers.head?

end Selection

/-! ## The published views -/

/-- The discipline loop's estimate, for the control socket. -/
structure TrackingState (R : Type) where
  synchronized : Bool
  offsetS : R
  freqPpm : R
  errorBoundS : WithTop R
  updated : R
  pollIntervalS : R

section Tracking

variable {R : Type} [Field R] [LinearOrder R]

/-- `TrackingState::unsynchronized`. -/
def TrackingState.unsynchronized (now : R) : TrackingState R where
  synchronized := false
  offsetS := 0
  freqPpm := 0
  errorBoundS := ⊤
  updated := now
  pollIntervalS := 64.0

/-- `publish`, which replaces the whole report. -/
def TrackingState.publish (synchronized : Bool)
    (offsetS freqPpm errorBoundS pollIntervalS now : R) :
    TrackingState R where
  synchronized := synchronized
  offsetS := offsetS
  freqPpm := freqPpm
  errorBoundS := errorBoundS
  updated := now
  pollIntervalS := max pollIntervalS 1

end Tracking

/-! ## The loop -/

/-- What the loop keeps from one turn to the next. -/
structure SyncLoop (R : Type) where
  sources : List (Source R)
  ctl : MultiController R
  driver : SystemClock
  tracking : TrackingState R
  served : Option (Served R)
  servedSyncedAt : Option R
  refusedInARow : Nat
  holding : Bool
  drainsRetired : Nat
  appliedAny : Bool
  /-- The process has ended with an error. -/
  exited : Bool

/-- What happens around the poll of one source. -/
structure Poll (R : Type) where
  /-- The `Instant` of the due test. -/
  nowS : R
  /-- The reply, unless the exchange was lost. -/
  reply : Option (Received R)
  /-- `mono_s`, unless the clock cannot be read. -/
  monoS : Option R
  /-- The `Instant` the next poll is counted from. -/
  rescheduledS : R
  /-- Whether the driver takes the command it is given. -/
  ok : Bool
  /-- The reference id of the peer's address, if the socket has one. -/
  peer : Option (Vector UInt8 4)
  /-- The `Instant` of publishing. -/
  doneS : R

/-- A plan that was published. -/
structure Decision (R : Type) where
  index : Nat
  /-- The stratum of the selected source. -/
  stratum : UInt8
  command : ClockCommand R
  verdict : ChangeVerdict R
  /-- The driver's answer, if it was asked. -/
  answer : Option Bool
  doneS : R
deriving DecidableEq

/-- What an iteration did with the clock. -/
inductive Deed (R : Type) where
  /-- A drain retired. -/
  | retired (command : ClockCommand R)
  /-- The clock held for want of a majority. -/
  | held (command : ClockCommand R)
  | published (decision : Decision R)
deriving DecidableEq

/-- `MAX_REFUSALS`. -/
def maxRefusals : Nat := 10

namespace SyncLoop

variable {R : Type} [Field R] [LinearOrder R] [FloorRing R]

/-- The loop as it is entered. -/
def start (opts : SyncOptions R) (sources : List (Source R)) (nominalTickUs : Int) (now : R) :
    SyncLoop R where
  sources := sources
  ctl := MultiController.new opts.discipline sources.length
  driver := SystemClock.fresh nominalTickUs
  tracking := TrackingState.unsynchronized now
  served := if opts.serves then some Served.unsynchronized else none
  servedSyncedAt := none
  refusedInARow := 0
  holding := false
  drainsRetired := 0
  appliedAny := false
  exited := false

/-- `served_stale_after`. -/
def servedStaleAfter (opts : SyncOptions R) : R := 4.0 * exp2i opts.discipline.maxPoll

/-- The staleness check of the served view; `elapsed` saturates at zero. -/
def expire (opts : SyncOptions R) (s : SyncLoop R) (nowS : R) : SyncLoop R :=
  match s.served, s.servedSyncedAt with
  | some _, some syncedAt =>
    if servedStaleAfter opts < max (nowS - syncedAt) 0 then
      { s with served := some Served.unsynchronized, servedSyncedAt := none }
    else s
  | _, _ => s

/-- The retirement of a drain whose budget is spent. -/
def retire (opts : SyncOptions R) (nominalTickUs : Int) (s : SyncLoop R) (monoS : R) (ok : Bool) :
    SyncLoop R × Option (Deed R) :=
  if !opts.stopDrains then (s, none)
  else
    match s.ctl.pollDrain monoS with
    | (ctl, none) => ({ s with ctl := ctl }, none)
    | (ctl, some command) =>
      let s := { s with ctl := ctl, drainsRetired := s.drainsRetired + 1 }
      if opts.dryRun then (s, some (.retired command))
      else if ok then
        ({ s with driver := s.driver.apply nominalTickUs command }, some (.retired command))
      else ({ s with refusedInARow := s.refusedInARow + 1 }, some (.retired command))

/-- How long the loop sleeps, before the ceiling that keeps it responsive. -/
def wait (opts : SyncOptions R) (s : SyncLoop R) (nowS monoS : R) : R :=
  let nextDue := (s.sources.map fun source => source.due).min?.getD nowS
  let untilDue := max (nextDue - nowS) 0
  match s.ctl.drainCompletesAt with
  | some completesAt =>
    if opts.stopDrains ∧ 0 < completesAt - monoS then min untilDue (completesAt - monoS)
    else untilDue
  | none => untilDue

/-- `hold_if_no_majority`. -/
def holdIfNoMajority (opts : SyncOptions R) (nominalTickUs : Int) (s : SyncLoop R)
    (selected : Option Nat) (ok : Bool) : SyncLoop R × Option (Deed R) :=
  if selected.isSome then ({ s with holding := false }, none)
  else if opts.dryRun then (s, none)
  else
    let hold : ClockCommand R := .slew s.ctl.freqCmdPpm 0 0
    let s := { s with holding := true }
    if ok then ({ s with driver := s.driver.apply nominalTickUs hold }, some (.held hold))
    else (s, some (.held hold))

/-- `driver.apply` of a plan, and the books that go with its answer. -/
def commit (opts : SyncOptions R) (nominalTickUs : Int) (s : SyncLoop R)
    (command : ClockCommand R) (ok : Bool) : SyncLoop R × Option Bool :=
  if opts.dryRun then (s, none)
  else if ok then
    ({ s with
        driver := s.driver.apply nominalTickUs command
        appliedAny := true
        refusedInARow := 0
        ctl := s.ctl.confirmLastPlan }, some true)
  else
    ({ s with
        ctl := s.ctl.revertLastPlan.1
        refusedInARow := s.refusedInARow + 1
        exited := decide (maxRefusals ≤ s.refusedInARow + 1) }, some false)

/-- The LAN's view after a correction that reached the clock. -/
def serve (s : SyncLoop R) (source : Source R) (p : Poll R) : SyncLoop R :=
  match s.served, p.peer with
  | some _, some referenceId =>
    { s with
      served := some
        { stratum :=
            min (if source.lastStratum = 255 then 255 else source.lastStratum + 1)
              stratumUnsynchronized
          upstream :=
            { leap := .noWarning
              referenceId := referenceId
              rootDelayS := 0
              rootDispersionS := source.lastRootDistanceS } }
      servedSyncedAt := some p.doneS }
  | _, _ => s

/-- Publishing a plan, with the driver's answer to it. -/
def publish (s : SyncLoop R) (source : Source R) (step : ControllerStep R) (answer : Option Bool)
    (p : Poll R) : SyncLoop R :=
  let synchronized := answer == some true && step.verdict.isAccepted
  let s := { s with
    tracking := TrackingState.publish synchronized step.estimateOffsetS
      (step.estimateFreqPpm.getD 0) step.estimateSdS step.plan.nextPollS p.doneS }
  if synchronized then s.serve source p else s

/-- From a plan to what is published of it. A `GiveUp` ends the process before the clock is
touched; too many refusals in a row end it after. -/
def execute (opts : SyncOptions R) (nominalTickUs : Int) (s : SyncLoop R) (index : Nat)
    (source : Source R) (step : ControllerStep R) (p : Poll R) : SyncLoop R × Option (Deed R) :=
  match step.verdict with
  | .giveUp _ => ({ s with exited := true }, none)
  | _ =>
    let (s, answer) := { s with holding := false }.commit opts nominalTickUs step.plan.command p.ok
    if s.exited then (s, none)
    else
      (s.publish source step answer p,
        some (.published
          { index := index, stratum := source.lastStratum, command := step.plan.command
            verdict := step.verdict, answer := answer, doneS := p.doneS }))

/-- The selection and what follows from it, once `source` has its estimate. -/
def choose (opts : SyncOptions R) (nominalTickUs : Int) (s : SyncLoop R) (index : Nat)
    (source : Source R) (est : Estimate R) (monoS : R) (p : Poll R) :
    SyncLoop R × Option (Deed R) :=
  let selected := selectedIndex s.sources
  if selected = some index then
    let (ctl, step) := s.ctl.steer est monoS source.leapPending
    let source := { source with due := p.rescheduledS + step.plan.nextPollS }
    { s with ctl := ctl, sources := s.sources.set index source }.execute opts nominalTickUs
      index source step p
  else
    let source := { source with due := p.rescheduledS + s.ctl.pollIntervalS }
    { s with sources := s.sources.set index source }.holdIfNoMajority opts nominalTickUs
      selected p.ok

/-- The poll of the source at `index`. -/
def poll (opts : SyncOptions R) (std : StdFloat R) (nominalTickUs : Int) (s : SyncLoop R)
    (index : Nat) (p : Poll R) : SyncLoop R × Option (Deed R) :=
  match s.sources[index]? with
  | none => (s, none)
  | some source =>
    if p.nowS < source.due then (s, none)
    else
      match p.reply.bind source.accept with
      | some (source, sample, stratum, rootDistance) =>
        match p.monoS with
        | none => ({ s with sources := s.sources.set index source }, none)
        | some monoS =>
          let (ctl, est) := s.ctl.observe std index monoS sample
          let source := source.record est stratum rootDistance
          { s with ctl := ctl, sources := s.sources.set index source }.choose opts nominalTickUs
            index source est monoS p
      | none =>
        ({ s with
            sources :=
              s.sources.set index (source.lose (p.rescheduledS + s.ctl.retryIntervalS)) }, none)

end SyncLoop

/-! ## Certificate dates -/

/-- How key establishment judges the dates of the server's certificate. -/
inductive CertDates where
  /-- `NtsSession::establish`: by the local clock. -/
  | checked
  /-- `NtsSession::establish_ignoring_cert_dates`: at the chain's own time. -/
  | ignored
deriving DecidableEq

/-- `CLOCK_SET`: stored where `applied_any` is set, and nowhere else. -/
def SyncLoop.clockSet {R : Type} (s : SyncLoop R) : Bool := s.appliedAny

/-- The establishment that `establish_nts` chooses. -/
def establishNts (nocerttimecheck clockSet : Bool) : CertDates :=
  let unset := !clockSet
  if nocerttimecheck && unset then .ignored else .checked

/-! ## Runs -/

/-- The inputs of one turn of the loop. -/
structure Turn (R : Type) where
  /-- The `Instant` of the staleness check. -/
  checkedS : R
  monoS : R
  retireOk : Bool
  nowS : R
  polls : Nat → Poll R

/-- The head of a turn, or one poll of its sweep. -/
inductive SyncEvent (R : Type) where
  | head (checkedS monoS : R) (ok : Bool)
  | poll (index : Nat) (p : Poll R)

namespace SyncLoop

variable {R : Type} [Field R] [LinearOrder R] [FloorRing R]

/-- One event: the loop afterwards, and what was done with the clock. -/
def step (opts : SyncOptions R) (std : StdFloat R) (nominalTickUs : Int) (s : SyncLoop R)
    (ev : SyncEvent R) : SyncLoop R × Option (Deed R) :=
  if s.exited then (s, none)
  else
    match ev with
    | .head checkedS monoS ok => (s.expire opts checkedS).retire opts nominalTickUs monoS ok
    | .poll index p => s.poll opts std nominalTickUs index p

/-- One turn: the head, then a sweep over the sources unless the loop must sleep. -/
def turn (opts : SyncOptions R) (std : StdFloat R) (nominalTickUs : Int) (s : SyncLoop R)
    (t : Turn R) : SyncLoop R :=
  let s := (s.step opts std nominalTickUs (.head t.checkedS t.monoS t.retireOk)).1
  if 0 < s.wait opts t.nowS t.monoS then s
  else
    (List.range s.sources.length).foldl
      (fun s index => (s.step opts std nominalTickUs (.poll index (t.polls index))).1) s

end SyncLoop

end RustyTime
