import Mathlib.Algebra.Notation.Defs
import Mathlib.Data.Nat.Cast.Defs
import RustyTime.Core.Index
import RustyTime.Core.Ntp

/-!
# The client table

`rusty_time-core/src/server.rs`: the bounded table of clients behind the server, with its rate
limiter and the interleaved mode's timestamps. Three structures share the slots: the
open-addressed index, the free list with its generations, and the recency list threaded
through `prev` and `next`.

`R` is the type of seconds and tokens, `f64` in the source; nothing here uses a law of its
arithmetic. The `u64` counters are natural numbers. An access past the end of `slots`, a panic
in the source, changes nothing here; the invariant of `Properties/ClientTable.lean` shows that
no operation makes one.
-/

namespace RustyTime

/-! ## Configuration and records -/

/-- `RateLimitConfig`. -/
structure RateLimitConfig (R : Type) where
  /-- log2 of the mean seconds between responses to one client. -/
  intervalLog2 : Int
  burst : Nat
  /-- One dropped request in `2 ^ leakShift` is answered with a Kiss-o'-Death. -/
  leakShift : Nat
  /-- Ceiling on responses per second across all clients, 0 for none. -/
  globalRateHz : R
  globalBurst : R

inductive Disposition where
  | respond
  | kissOfDeath
  | drop
deriving DecidableEq, Repr

/-- Which timestamps a response carries. -/
inductive ResponseMode where
  | basic
  | interleaved (prevTransmit : NtpTimestamp)
deriving DecidableEq, Repr

/-- `mark_server_timestamps`: receive has bit 0 set, transmit has it clear. -/
def markServerTimestamps (receive transmit : NtpTimestamp) : NtpTimestamp × NtpTimestamp :=
  (⟨receive.val ||| 1⟩, ⟨transmit.val &&& ~~~1⟩)

/-- `ClientRecord`. -/
structure ClientRecord (R : Type) where
  lastSeen : R
  tokens : R
  requests : Nat
  responses : Nat
  dropped : Nat
  dropsSinceKod : Nat
  lastReceive : NtpTimestamp
  lastTransmit : NtpTimestamp
  lastReceiveSent : NtpTimestamp
  interleavedNow : Bool

/-- `ServerStats`. -/
structure ServerStats where
  requests : Nat
  responses : Nat
  droppedRateLimit : Nat
  kissOfDeath : Nat
  interleavedResponses : Nat
  refused : Nat
  evicted : Nat
deriving DecidableEq, Repr

/-- A resolved position in the table. -/
structure ClientHandle where
  slot : Nat
  generation : Nat
deriving DecidableEq, Repr

/-- `ClientHandle::INVALID`, the handle of a request the global limiter rejected. -/
def ClientHandle.invalid : ClientHandle := ⟨linkNil, 0⟩

/-- `ClientRecord::new`. -/
def ClientRecord.new {R : Type} [NatCast R] (now : R) (burst : Nat) : ClientRecord R where
  lastSeen := now
  tokens := (burst : R)
  requests := 0
  responses := 0
  dropped := 0
  dropsSinceKod := 0
  lastReceive := NtpTimestamp.zero
  lastTransmit := NtpTimestamp.zero
  lastReceiveSent := NtpTimestamp.zero
  interleavedNow := false

/-- The refill of a client's own bucket in `admit_handle`. -/
def ClientRecord.refill {R : Type} [Zero R] [Add R] [Sub R] [Mul R] [NatCast R] [Max R] [Min R]
    (r : ClientRecord R) (now rate : R) (burst : Nat) : ClientRecord R :=
  let elapsed := max (now - r.lastSeen) 0
  { r with
    tokens := min (r.tokens + elapsed * rate) (burst : R)
    lastSeen := now
    requests := r.requests + 1 }

/-- `1u32 << leak_shift.min(16)`. -/
def RateLimitConfig.period {R : Type} (config : RateLimitConfig R) : Nat :=
  2 ^ min config.leakShift 16

structure ClientTable (K R : Type) where
  index : Index K
  slots : Array (Slot K (ClientRecord R))
  /-- Evicted slots, the last one pushed first. -/
  free : List Nat
  mru : Nat
  lru : Nat
  globalTokens : R
  globalLast : Option R
  globalDropsSinceKod : Nat
  capacity : Nat
  config : RateLimitConfig R
  refillPerS : R
  stats : ServerStats

namespace ClientTable

variable {K R : Type}

/-- `ClientTable::new`. `none` is the index's failed assertion. -/
def new [NatCast R] [Pow R Int] (capacity : Nat) (config : RateLimitConfig R)
    (hasher : K → UInt64) : Option (ClientTable K R) :=
  (Index.withCapacity (max capacity 1) hasher).map fun index =>
    { index := index
      slots := #[]
      free := []
      mru := linkNil
      lru := linkNil
      globalTokens := config.globalBurst
      globalLast := none
      globalDropsSinceKod := 0
      capacity := max capacity 1
      config := config
      refillPerS := ((2 : Nat) : R) ^ (-config.intervalLog2)
      stats := ⟨0, 0, 0, 0, 0, 0, 0⟩ }

/-! ## The recency list -/

def setNext (t : ClientTable K R) (i next : Nat) : ClientTable K R :=
  { t with slots := t.slots.modify i fun s => { s with next := next } }

def setPrev (t : ClientTable K R) (i prev : Nat) : ClientTable K R :=
  { t with slots := t.slots.modify i fun s => { s with prev := prev } }

def setRecord (t : ClientTable K R) (i : Nat) (f : ClientRecord R → ClientRecord R) :
    ClientTable K R :=
  { t with slots := t.slots.modify i fun s => { s with record := f s.record } }

/-- `unlink`: detach a slot from the recency list. -/
def unlink (t : ClientTable K R) (i : Nat) : ClientTable K R :=
  match t.slots[i]? with
  | none => t
  | some slot =>
    let t :=
      if slot.prev = linkNil then { t with mru := slot.next }
      else t.setNext slot.prev slot.next
    if slot.next = linkNil then { t with lru := slot.prev } else t.setPrev slot.next slot.prev

/-- `link_front`: put a detached slot at the most recent end. -/
def linkFront (t : ClientTable K R) (i : Nat) : ClientTable K R :=
  let old := t.mru
  let t := (t.setPrev i linkNil).setNext i old
  let t := if old = linkNil then { t with lru := i } else t.setPrev old i
  { t with mru := i }

/-- `touch`: move a client to the most recent end. -/
def touch (t : ClientTable K R) (i : Nat) : ClientTable K R :=
  if t.mru = i then t else (t.unlink i).linkFront i

/-- The walk of `most_recent`, at slot `at`, with room for so many more entries. -/
def mostRecentFrom (t : ClientTable K R) : Nat → Nat → List (K × ClientRecord R)
  | 0, _ => []
  | limit + 1, i =>
    if i = linkNil then []
    else
      match t.slots[i]? with
      | none => []
      | some slot => (slot.key, slot.record) :: mostRecentFrom t limit slot.next

/-- `most_recent`: the MRU report. -/
def mostRecent (t : ClientTable K R) (limit : Nat) : List (K × ClientRecord R) :=
  t.mostRecentFrom limit t.mru

def len (t : ClientTable K R) : Nat := t.index.len

/-! ## Slots -/

/-- `alloc_slot`: reuse an evicted slot, or grow. -/
def allocSlot (t : ClientTable K R) (key : K) (record : ClientRecord R) :
    ClientTable K R × Nat :=
  match t.free with
  | i :: free =>
    let slots := t.slots.modify i fun slot =>
      { key := key, record := record, prev := linkNil, next := linkNil
        -- a new occupant makes every handle to the previous one stale
        generation := (slot.generation + 1) % 4294967296 }
    (({ t with slots := slots, free := free } : ClientTable K R).linkFront i, i)
  | [] =>
    let slots := t.slots.push
      { key := key, record := record, prev := linkNil, next := linkNil, generation := 0 }
    let i := (slots.size - 1) % 4294967296
    (({ t with slots := slots } : ClientTable K R).linkFront i, i)

/-- `resolve`: the slot of a handle that has not gone stale. -/
def resolve (t : ClientTable K R) (handle : ClientHandle) : Option Nat :=
  match t.slots[handle.slot]? with
  | none => none
  | some slot => if slot.generation = handle.generation then some handle.slot else none

/-- `handle_for`. -/
def handleFor (t : ClientTable K R) (slot : Nat) : ClientHandle :=
  ⟨slot, (t.slots[slot]?.map Slot.generation).getD 0⟩

/-! ## Interleaved mode -/

/-- `response_mode_at`. -/
def responseModeAt (t : ClientTable K R) (handle : ClientHandle) (requestOrigin : NtpTimestamp) :
    ClientTable K R × ResponseMode :=
  match t.resolve handle with
  | none => (t, .basic)
  | some i =>
    match t.slots[i]? with
    | none => (t, .basic)
    | some slot =>
      let sentReceive := slot.record.lastReceiveSent
      let prevTransmit := slot.record.lastTransmit
      if sentReceive.isZero || prevTransmit.isZero then (t, .basic)
      else
        let interleaved := requestOrigin == sentReceive && !requestOrigin.isZero
        let t := t.setRecord i fun r => { r with interleavedNow := interleaved }
        if interleaved then
          ({ t with stats :=
              { t.stats with interleavedResponses := t.stats.interleavedResponses + 1 } },
            .interleaved prevTransmit)
        else (t, .basic)

/-- `note_response_at`. -/
def noteResponseAt (t : ClientTable K R) (handle : ClientHandle)
    (receive receiveSent : NtpTimestamp) : ClientTable K R :=
  match t.resolve handle with
  | none => t
  | some i =>
    t.setRecord i fun r => { r with lastReceive := receive, lastReceiveSent := receiveSent }

/-- `note_transmit_at`, called after the send. -/
def noteTransmitAt (t : ClientTable K R) (handle : ClientHandle) (transmit : NtpTimestamp) :
    ClientTable K R :=
  match t.resolve handle with
  | none => t
  | some i => t.setRecord i fun r => { r with lastTransmit := transmit }

/-- `note_refused`. -/
def noteRefused (t : ClientTable K R) : ClientTable K R :=
  { t with stats := { t.stats with refused := t.stats.refused + 1 } }

section Keyed

variable [DecidableEq K]

/-- `get`. -/
def get (t : ClientTable K R) (key : K) : Option (ClientRecord R) :=
  match t.index.get key t.slots with
  | none => none
  | some i => t.slots[i]?.map Slot.record

/-- `evict_one`: drop the least recently seen client, the list's tail. -/
def evictOne (t : ClientTable K R) : ClientTable K R :=
  let victim := t.lru
  if victim = linkNil then t
  else
    let t := t.unlink victim
    let index :=
      match t.slots[victim]? with
      | none => t.index
      | some slot => t.index.remove slot.key t.slots
    { t with
      index := index
      free := victim :: t.free
      stats := { t.stats with evicted := t.stats.evicted + 1 } }

/-- `response_mode`. -/
def responseMode (t : ClientTable K R) (key : K) (requestOrigin : NtpTimestamp) :
    ClientTable K R × ResponseMode :=
  match t.index.get key t.slots with
  | some i => t.responseModeAt (t.handleFor i) requestOrigin
  | none => (t, .basic)

/-- `note_response`. -/
def noteResponse (t : ClientTable K R) (key : K) (receive receiveSent : NtpTimestamp) :
    ClientTable K R :=
  match t.index.get key t.slots with
  | some i => t.noteResponseAt (t.handleFor i) receive receiveSent
  | none => t

/-- `note_transmit`. -/
def noteTransmit (t : ClientTable K R) (key : K) (transmit : NtpTimestamp) : ClientTable K R :=
  match t.index.get key t.slots with
  | some i => t.setRecord i fun r => { r with lastTransmit := transmit }
  | none => t

/-! ## Admission -/

section Admission

variable [Zero R] [One R] [Add R] [Sub R] [Mul R] [NatCast R] [Max R] [Min R]
  [LT R] [LE R] [DecidableLT R] [DecidableLE R]

/-- The refill of the global bucket at the head of `admit_handle`. -/
def refillGlobal (t : ClientTable K R) (now : R) : ClientTable K R :=
  let last := t.globalLast.getD now
  let elapsed := max (now - last) 0
  { t with
    globalTokens := min (t.globalTokens + elapsed * t.config.globalRateHz) t.config.globalBurst
    globalLast := some now }

/-- A drop by the global limiter, with its own leak counter. -/
def dropGlobal (t : ClientTable K R) : ClientTable K R × Disposition :=
  let stats := { t.stats with droppedRateLimit := t.stats.droppedRateLimit + 1 }
  let drops := t.globalDropsSinceKod + 1
  if t.config.period ≤ drops then
    ({ t with
        globalDropsSinceKod := 0
        stats := { stats with kissOfDeath := stats.kissOfDeath + 1 } }, .kissOfDeath)
  else ({ t with globalDropsSinceKod := drops, stats := stats }, .drop)

/-- The slot of an admitted client: its own moved to the front, or a new one. -/
def slotFor (t : ClientTable K R) (key : K) (now : R) : ClientTable K R × Nat :=
  match t.index.get key t.slots with
  | some i => (t.touch i, i)
  | none =>
    let t := if t.capacity ≤ t.len then t.evictOne else t
    let (t, i) := t.allocSlot key (ClientRecord.new now t.config.burst)
    ({ t with index := t.index.insert key i t.slots }, i)

/-- The second half of `admit_handle`: charge the client in `slot`. -/
def charge (t : ClientTable K R) (slot : Nat) (now : R) : ClientTable K R × Disposition :=
  match t.slots[slot]? with
  | none => (t, .drop)
  | some s =>
    let r := s.record.refill now t.refillPerS t.config.burst
    if 1 ≤ r.tokens then
      let t := t.setRecord slot fun _ =>
        { r with tokens := r.tokens - 1, responses := r.responses + 1 }
      ({ t with
          globalTokens := t.globalTokens - 1
          stats := { t.stats with responses := t.stats.responses + 1 } }, .respond)
    else
      let r := { r with dropped := r.dropped + 1, dropsSinceKod := r.dropsSinceKod + 1 }
      let stats := { t.stats with droppedRateLimit := t.stats.droppedRateLimit + 1 }
      if t.config.period ≤ r.dropsSinceKod then
        let t := t.setRecord slot fun _ => { r with dropsSinceKod := 0 }
        ({ t with stats := { stats with kissOfDeath := stats.kissOfDeath + 1 } }, .kissOfDeath)
      else
        let t := t.setRecord slot fun _ => r
        ({ t with stats := stats }, .drop)

/-- The first lines of `admit_handle`: count the request and refill the global bucket. -/
def openRequest (t : ClientTable K R) (now : R) : ClientTable K R :=
  let t := { t with stats := { t.stats with requests := t.stats.requests + 1 } }
  if 0 < t.config.globalRateHz then t.refillGlobal now else t

/-- Whether the global limiter lets the request through. -/
def passesGlobal (t : ClientTable K R) (now : R) : Bool :=
  !(decide (0 < t.config.globalRateHz) && decide ((t.openRequest now).globalTokens < 1))

/-- `admit_handle`. -/
def admitHandle (t : ClientTable K R) (key : K) (now : R) :
    ClientTable K R × Disposition × ClientHandle :=
  if t.passesGlobal now then
    let (t, slot) := (t.openRequest now).slotFor key now
    let handle := t.handleFor slot
    let (t, disposition) := t.charge slot now
    (t, disposition, handle)
  else
    let (t, disposition) := (t.openRequest now).dropGlobal
    (t, disposition, ClientHandle.invalid)

/-! ## Runs -/

/-- The operations a driver calls. -/
inductive Op (K R : Type) where
  | admitHandle (key : K) (now : R)
  | responseMode (key : K) (origin : NtpTimestamp)
  | responseModeAt (handle : ClientHandle) (origin : NtpTimestamp)
  | noteResponse (key : K) (receive receiveSent : NtpTimestamp)
  | noteResponseAt (handle : ClientHandle) (receive receiveSent : NtpTimestamp)
  | noteTransmit (key : K) (transmit : NtpTimestamp)
  | noteTransmitAt (handle : ClientHandle) (transmit : NtpTimestamp)
  | noteRefused

def step (t : ClientTable K R) : Op K R → ClientTable K R
  | .admitHandle key now => (t.admitHandle key now).1
  | .responseMode key origin => (t.responseMode key origin).1
  | .responseModeAt handle origin => (t.responseModeAt handle origin).1
  | .noteResponse key receive receiveSent => t.noteResponse key receive receiveSent
  | .noteResponseAt handle receive receiveSent => t.noteResponseAt handle receive receiveSent
  | .noteTransmit key transmit => t.noteTransmit key transmit
  | .noteTransmitAt handle transmit => t.noteTransmitAt handle transmit
  | .noteRefused => t.noteRefused

def run (t : ClientTable K R) (ops : List (Op K R)) : ClientTable K R := ops.foldl step t

end Admission

end Keyed

end ClientTable

end RustyTime
