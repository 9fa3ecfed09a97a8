import Mathlib.Algebra.Group.Nat.Even
import RustyTime.Clock.Refclock

/-!
# A producer and a reader of one segment

The producer publishes samples in mode 1, one word a step; the reader takes one sample. A schedule
says whose step is next. Two numbers are kept of the history, and no step looks at them: how often
the producer has counted up, and how often it had when the reader first read COUNT.
-/

namespace RustyTime.Refclock

/-! ## The producer -/

/-- A sample to publish, and the order its words are written in. -/
structure Publication where
  fields : Fields
  order : List Word
  complete : ∀ word, word ∈ order

/-- Where the producer is, and what it will publish after that. -/
inductive Producer where
  /-- Next: `valid = 0`. -/
  | idle (later : List Publication)
  /-- Next: `count += 1`. -/
  | cleared (p : Publication) (later : List Publication)
  /-- Next: the first word left, or `count += 1` after the last. -/
  | writing (p : Publication) (left : List Word) (later : List Publication)
  /-- Next: `valid = 1`. -/
  | counted (p : Publication) (later : List Publication)

/-! ## Both -/

/-- The reader is about to look at COUNT again. -/
def Reader.Comparing : Reader → Prop
  | .countAfter _ _ _ => True
  | _ => False

instance : (r : Reader) → Decidable r.Comparing
  | .countAfter _ _ _ => isTrue trivial
  | .valid _ => isFalse id
  | .mode _ => isFalse id
  | .countBefore _ _ => isFalse id
  | .copying _ _ _ _ _ _ => isFalse id
  | .returned _ => isFalse id

structure State where
  shm : ShmTime
  producer : Producer
  reader : Reader
  /-- How often COUNT went up. -/
  ups : Nat
  /-- How often it had when the reader's attempt first read it. -/
  mark : Nat

namespace State

/-- One step of the producer. -/
def produce (s : State) : State :=
  match s.producer with
  | .idle [] => s
  | .idle (p :: later) =>
    { s with shm := { s.shm with valid := 0 }, producer := .cleared p later }
  | .cleared p later =>
    { s with
      shm := { s.shm with count := s.shm.count + 1 }
      producer := .writing p p.order later
      ups := s.ups + 1 }
  | .writing p (word :: left) later =>
    { s with
      shm := { s.shm with fields := p.fields.copy s.shm.fields word }
      producer := .writing p left later }
  | .writing p [] later =>
    { s with
      shm := { s.shm with count := s.shm.count + 1 }
      producer := .counted p later
      ups := s.ups + 1 }
  | .counted _ later =>
    { s with shm := { s.shm with valid := 1 }, producer := .idle later }

/-- One step of the reader. -/
def read (s : State) : State :=
  { s with
    reader := s.reader.step s.shm
    mark := match s.reader with
      | .countBefore _ _ => s.ups
      | _ => s.mark }

/-- Whose step is next. -/
inductive Turn where
  | producer
  | reader
deriving DecidableEq, Repr

def step (s : State) : Turn → State
  | .producer => s.produce
  | .reader => s.read

/-- The reader starts `sample` on a segment in which nothing is published yet. -/
def start (shm : ShmTime) (publications : List Publication) : State :=
  ⟨shm, .idle publications, .start, 0, 0⟩

/-- The step does not compare COUNT with itself inside one update, nor after it has come all the
way round. -/
def NotFooled (s : State) (turn : Turn) : Prop :=
  turn = .reader → s.reader.Comparing → s.ups % 4294967296 = s.mark % 4294967296 →
    s.ups = s.mark ∧ Even s.mark

instance (s : State) (turn : Turn) : Decidable (s.NotFooled turn) :=
  inferInstanceAs (Decidable (_ → _ → _ → _))

end State

end RustyTime.Refclock
