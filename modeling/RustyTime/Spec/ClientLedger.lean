import RustyTime.Infra.Piecewise
import RustyTime.Core.Client

/-!
# Runs of the controller, and what the clock was made to do

A run is a list of the controller's operations. Beside it stands a ledger, built from the
operations and the values the controller carried, never from its registers: at what rate the
clock was draining over each interval of time, which samples were pushed, and which plans were
made and not reverted.

`accounts` says what offset each pushed sample should have in terms of the ledger.
-/

namespace RustyTime.MultiController

open RustyTime.Piecewise

variable {R : Type}

/-- The operations on a controller. -/
inductive Op (R : Type) where
  | observe (index : Nat) (monoNowS : R) (sample : Sample R)
  | steer (est : Estimate R) (monoNowS : R) (leapPending : Bool)
  | pollDrain (monoNowS : R)
  | confirmLastPlan
  | revertLastPlan

/-- The time an operation is called with. -/
def Op.monoS? : Op R → Option R
  | .observe _ monoNowS _ => some monoNowS
  | .steer _ monoNowS _ => some monoNowS
  | .pollDrain monoNowS => some monoNowS
  | .confirmLastPlan => none
  | .revertLastPlan => none

/-- A `steer` comes right after an `observe` at the same instant, and a `revertLastPlan` right
after the `steer` it undoes. -/
def Op.MayFollow (previous : Option (Op R)) : Op R → Prop
  | .steer _ monoNowS _ => ∃ index sample, previous = some (.observe index monoNowS sample)
  | .revertLastPlan => ∃ est monoNowS leap, previous = some (.steer est monoNowS leap)
  | _ => True

/-- The operations are called in an order the controller is written for. -/
def WellCalled (previous : Option (Op R)) : List (Op R) → Prop
  | [] => True
  | op :: ops => op.MayFollow previous ∧ WellCalled (some op) ops

/-- The times of a run do not go back. -/
def WellTimed (now : Option R) [LE R] (ops : List (Op R)) : Prop :=
  (now.toList ++ ops.filterMap Op.monoS?).Pairwise (· ≤ ·)

theorem wellTimed_le [LE R] {instant : Option R} {op : Op R} {ops : List (Op R)} {now monoS : R}
    (h : WellTimed instant (op :: ops)) (hnow : instant = some now) (hop : op.monoS? = some monoS) :
    now ≤ monoS := by
  rw [WellTimed, hnow, List.filterMap_cons_some hop] at h
  exact (List.pairwise_cons.mp h).1 monoS List.mem_cons_self

theorem wellTimed_tail [LE R] {instant : Option R} {op : Op R} {ops : List (Op R)}
    (h : WellTimed instant (op :: ops)) : WellTimed (op.monoS?.or instant) ops := by
  rw [WellTimed] at h ⊢
  cases hop : op.monoS? with
  | none =>
    rw [List.filterMap_cons_none hop] at h
    exact h
  | some monoS =>
    rw [List.filterMap_cons_some hop] at h
    exact (List.pairwise_append.mp h).2.1

section Runs

variable [Field R] [LinearOrder R]

def step (std : StdFloat R) (c : MultiController R) : Op R → MultiController R
  | .observe index monoNowS sample => (c.observe std index monoNowS sample).1
  | .steer est monoNowS leapPending => (c.steer est monoNowS leapPending).1
  | .pollDrain monoNowS => (c.pollDrain monoNowS).1
  | .confirmLastPlan => c.confirmLastPlan
  | .revertLastPlan => c.revertLastPlan.1

def run (std : StdFloat R) (c : MultiController R) (ops : List (Op R)) : MultiController R :=
  ops.foldl (step std) c

/-! ## The ledger -/

/-- One line of the journal. -/
inductive Entry (R : Type) where
  | pushed (index : Nat) (monoS : R) (sample : Sample R)
  | planned (monoS dfreqPpm stepS : R)

structure Ledger (R : Type) where
  /-- The time of the last operation. -/
  now : Option R
  /-- The rate the controller carried between operations, in seconds per second. -/
  timeline : List (Segment R)
  journal : List (Entry R)

/-- Nothing has happened. -/
def Ledger.empty : Ledger R := ⟨none, [], []⟩

/-- Time passes: the clock drains at the rate `c` carries. -/
def Ledger.advance (g : Ledger R) (c : MultiController R) (monoS : R) : Ledger R :=
  { g with
    now := some monoS
    timeline := match g.now with
      | none => g.timeline
      | some now => g.timeline ++ [⟨now, monoS, c.drainPpm * 1e-6⟩] }

/-- The journal after an operation on `c`. A reverted plan leaves it. -/
def journalStep (c : MultiController R) (journal : List (Entry R)) : Op R → List (Entry R)
  | .observe index monoNowS sample => journal ++ [.pushed index monoNowS sample]
  | .steer est monoNowS leapPending =>
    let (c', decided) := c.steer est monoNowS leapPending
    journal ++
      [.planned monoNowS (c'.freqCmdPpm - c.freqCmdPpm) (stepOf decided.plan.command)]
  | .revertLastPlan => journal.dropLast
  | _ => journal

def Ledger.record (g : Ledger R) (c : MultiController R) (op : Op R) : Ledger R :=
  let advanced := match op.monoS? with
    | none => g
    | some monoS => g.advance c monoS
  { advanced with journal := journalStep c g.journal op }

/-- The ledger of a run. -/
def ledgerFrom (std : StdFloat R) (c : MultiController R) (g : Ledger R) : List (Op R) → Ledger R
  | [] => g
  | op :: ops => ledgerFrom std (step std c op) (g.record c op) ops

def ledger (std : StdFloat R) (c : MultiController R) (ops : List (Op R)) : Ledger R :=
  ledgerFrom std c .empty ops

/-! ## What the samples should read -/

/-- The seconds stepped by the plans of a journal. -/
def steps : List (Entry R) → R
  | [] => 0
  | .pushed _ _ _ :: rest => steps rest
  | .planned _ _ stepS :: rest => stepS + steps rest

/-- How far the plans of a journal tilted a sample of time `t`. -/
def tilts (t : R) : List (Entry R) → R
  | [] => 0
  | .pushed _ _ _ :: rest => tilts t rest
  | .planned monoS dfreqPpm _ :: rest => dfreqPpm * 1e-6 * (t - monoS) + tilts t rest

/-- The samples pushed to one register, with the offsets the journal gives them. `drained`
is the drain since a push. -/
def accounts (drained : R → R) (index : Nat) : List (Entry R) → List (Sample R)
  | [] => []
  | .planned _ _ _ :: rest => accounts drained index rest
  | .pushed i monoS s :: rest =>
    if i = index then
      { s with offset := s.offset - drained monoS - steps rest - tilts s.t rest } ::
        accounts drained index rest
    else accounts drained index rest

/-- The accounts of a ledger, with the drain booked up to `bookedUntil`. -/
def Ledger.accounts (g : Ledger R) (bookedUntil : R) (index : Nat) : List (Sample R) :=
  MultiController.accounts (fun monoS => integral g.timeline monoS bookedUntil) index g.journal

/-! ## The drain of a plan -/

/-- The drain a plan asked for, and what of it the clock has been given. -/
structure DrainPlan (R : Type) where
  /-- `|drain_offset|`. -/
  budget : R
  delivered : R

/-- The drain that is running, and the one a refusal brings back. -/
structure DrainLog (R : Type) where
  now : Option R
  current : Option (DrainPlan R)
  before : Option (DrainPlan R)

def DrainLog.empty : DrainLog R := ⟨none, none, none⟩

/-- What has been delivered at `monoS`, the clock draining at the rate `c` carries. -/
def DrainPlan.deliveredAt (c : MultiController R) (now : Option R) (p : DrainPlan R) (monoS : R) :
    R :=
  match now with
  | none => p.delivered
  | some now => p.delivered + c.drainPpm * 1e-6 * (monoS - now)

/-- Time passes. -/
def DrainLog.advance (g : DrainLog R) (c : MultiController R) (monoS : R) : DrainLog R :=
  { g with
    now := some monoS
    current := g.current.map fun p => { p with delivered := p.deliveredAt c g.now monoS } }

def DrainLog.record (g : DrainLog R) (c : MultiController R) : Op R → DrainLog R
  | .observe _ monoNowS _ => g.advance c monoNowS
  | .steer est monoNowS leapPending =>
    { now := some monoNowS
      current := some ⟨(drainOf (c.steer est monoNowS leapPending).2.plan.command).2, 0⟩
      before := (g.advance c monoNowS).current }
  | .pollDrain monoNowS => g.advance c monoNowS
  | .confirmLastPlan => g
  | .revertLastPlan => if c.unapplied.isSome then ⟨g.now, g.before, none⟩ else g

/-- The drains of a run. -/
def drainLogFrom (std : StdFloat R) (c : MultiController R) (g : DrainLog R) :
    List (Op R) → DrainLog R
  | [] => g
  | op :: ops => drainLogFrom std (step std c op) (g.record c op) ops

end Runs

end RustyTime.MultiController
