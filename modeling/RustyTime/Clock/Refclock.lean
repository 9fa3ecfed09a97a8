import Mathlib.Data.Rat.Cast.OfScientific

/-!
# The shared-memory reference clock

`rusty_time-clock/src/refclock.rs`, and the sample of `rusty_time-core/src/refclock.rs`. A producer
writes the segment while it is read, so `sample` is a machine that reads one word at a time: what
it finds is the segment as it is at that step.
-/

namespace RustyTime.Refclock

/-! ## Samples -/

inductive LeapWarning where
  | none
  | addSecond
  | deleteSecond
  /-- The reference is not currently trustworthy. -/
  | notSynchronized
deriving DecidableEq, Repr

/-- `from_wire`. -/
def LeapWarning.fromWire (value : Int32) : LeapWarning :=
  if value = 0 then .none
  else if value = 1 then .addSecond
  else if value = 2 then .deleteSecond
  else .notSynchronized

/-- `RefclockSample`. -/
structure RefclockSample (R : Type) where
  localS : R
  offsetS : R
  precisionLog2 : Int
  leap : LeapWarning

/-! ## The segment -/

/-- The words of a sample. -/
structure Fields where
  clockSec : Int64
  clockUsec : Int32
  clockNsec : Int32
  receiveSec : Int64
  receiveUsec : Int32
  receiveNsec : Int32
  leap : Int32
  precision : Int32
deriving DecidableEq, Inhabited

/-- The words by name. -/
inductive Word where
  | clockSec
  | clockUsec
  | clockNsec
  | receiveSec
  | receiveUsec
  | receiveNsec
  | leap
  | precision
deriving DecidableEq, Repr

namespace Fields

/-- One word of `source`, into `target`. -/
def copy (source target : Fields) : Word → Fields
  | .clockSec => { target with clockSec := source.clockSec }
  | .clockUsec => { target with clockUsec := source.clockUsec }
  | .clockNsec => { target with clockNsec := source.clockNsec }
  | .receiveSec => { target with receiveSec := source.receiveSec }
  | .receiveUsec => { target with receiveUsec := source.receiveUsec }
  | .receiveNsec => { target with receiveNsec := source.receiveNsec }
  | .leap => { target with leap := source.leap }
  | .precision => { target with precision := source.precision }

end Fields

/-- `shmTime`, as far as it is read. -/
structure ShmTime where
  mode : Int32
  count : Int32
  valid : Int32
  fields : Fields

/-! ## Reading it -/

/-- Where `sample` is: the word it reads next, and what it has read. `retries` attempts are left
after this one. -/
inductive Reader where
  | valid (retries : Nat)
  | mode (retries : Nat)
  | countBefore (retries : Nat) (kind : Int32)
  | copying (retries : Nat) (kind before : Int32) (next : Word) (later : List Word)
      (got : Fields)
  | countAfter (retries : Nat) (before : Int32) (got : Fields)
  | returned (got : Option Fields)
deriving DecidableEq

namespace Reader

/-- Where `sample` starts. -/
def start : Reader := .valid 3

/-- The words after the first, in the order they are read in. -/
def laterWords : List Word :=
  [.clockUsec, .clockNsec, .receiveSec, .receiveUsec, .receiveNsec, .leap, .precision]

/-- One read. -/
def step (shm : ShmTime) : Reader → Reader
  | .valid retries => if shm.valid = 0 then .returned none else .mode retries
  | .mode retries => .countBefore retries shm.mode
  | .countBefore retries kind => .copying retries kind shm.count .clockSec laterWords default
  | .copying retries kind before next later got =>
    let got := shm.fields.copy got next
    match later with
    | next :: later => .copying retries kind before next later got
    | [] => if kind = 1 then .countAfter retries before got else .returned (some got)
  | .countAfter retries before got =>
    if before ≠ shm.count then
      -- torn; the producer was mid-update
      match retries with
      | 0 => .returned none
      | retries + 1 => .valid retries
    else .returned (some got)
  | .returned got => .returned got

end Reader

/-! ## What the words say -/

section

variable {R : Type} [Field R]

/-- `sub_ns`: the nanoseconds where there are any, else the microseconds. -/
def subNs (nsec usec : Int32) : Int64 := if nsec ≠ 0 then nsec.toInt64 else usec.toInt64 * 1000

/-- The sample of the words. The seconds are subtracted as integers, and wrap. -/
def sampleOf (got : Fields) : RefclockSample R :=
  let clockNs := subNs got.clockNsec got.clockUsec
  let receiveNs := subNs got.receiveNsec got.receiveUsec
  { localS := (got.receiveSec.toInt : R) + (receiveNs.toInt : R) * 1e-9
    offsetS := ((got.clockSec - got.receiveSec).toInt : R)
      + ((clockNs - receiveNs).toInt : R) * 1e-9
    precisionLog2 := max (-32) (min got.precision.toInt 0)
    leap := .fromWire got.leap }

end

end RustyTime.Refclock
