import RustyTime.Infra.Bytes
import RustyTime.Infra.Iter
import RustyTime.Infra.Slice

/-!
# NTS-KE records

`rusty_time-nts/src/records.rs`: a 2-byte type whose top bit marks a critical record, a 2-byte
body length, and the body.
-/

namespace RustyTime

open Infra.Bytes

/-! ## Record types -/

namespace RecordType

def endOfMessage : UInt16 := 0
def nextProtocol : UInt16 := 1
def error : UInt16 := 2
def warning : UInt16 := 3
def aeadAlgorithm : UInt16 := 4
def newCookie : UInt16 := 5
def serverNegotiation : UInt16 := 6
def portNegotiation : UInt16 := 7

end RecordType

/-- `Record`. -/
structure Record where
  critical : Bool
  recordType : UInt16
  body : List UInt8
deriving DecidableEq

inductive RecordError where
  /-- The stream ended inside a record that starts at `offset`. -/
  | truncated (offset : Nat)
deriving DecidableEq

/-! ## Reading -/

/-- `RecordIter`. -/
structure RecordIter where
  buf : List UInt8
  /-- The field `at`. -/
  offset : Nat
  done : Bool

/-- `records`. -/
def records (buf : List UInt8) : RecordIter := ⟨buf, 0, false⟩

/-- `RecordIter::next`: the item and the iterator after it. -/
def RecordIter.next (self : RecordIter) :
    Option (Except RecordError Record × RecordIter) :=
  if self.done = true ∨ self.buf.length ≤ self.offset then none
  else
    match Infra.Slice.get self.buf self.offset (self.offset + 2),
      Infra.Slice.get self.buf (self.offset + 2) (self.offset + 4) with
    | some tb, some lb =>
      let typeField := UInt16.ofNat (beNat tb)
      let bodyLen := beNat lb
      let bodyStart := self.offset + 4
      match Infra.Slice.get self.buf bodyStart (bodyStart + bodyLen) with
      | none => some (.error (.truncated self.offset), { self with done := true })
      | some body =>
        let recordType := typeField &&& 0x7FFF
        some
          (.ok { critical := typeField &&& 0x8000 != 0, recordType := recordType, body := body },
            { self with
              offset := bodyStart + bodyLen
              done := recordType == RecordType.endOfMessage })
    | _, _ => some (.error (.truncated self.offset), { self with done := true })

/-- What is left for an iterator to give. -/
def RecordIter.size (self : RecordIter) : Nat :=
  if self.done = true then 0 else self.buf.length - self.offset

/-- The items of `records`, in a list. No record is empty, so the length is fuel enough. -/
def recordItems (buf : List UInt8) : List (Except RecordError Record) :=
  Infra.Iter.collect RecordIter.next (buf.length + 1) (records buf)

/-! ## Writing -/

/-- The body length a record can announce. -/
def maxRecordBody : Nat := 65535

/-- The first two bytes of a record. -/
def typeField (critical : Bool) (recordType : UInt16) : UInt16 :=
  (recordType &&& 0x7FFF) ||| if critical then 0x8000 else 0

/-- `write_record`: `out` afterwards. -/
def writeRecord (out : List UInt8) (critical : Bool) (recordType : UInt16) (body : List UInt8) :
    List UInt8 :=
  out ++ toBe 2 (typeField critical recordType).toNat ++ toBe 2 (min body.length maxRecordBody)
    ++ body.take (min body.length maxRecordBody)

/-- Records written one after another. -/
def writeRecords (rs : List Record) : List UInt8 :=
  rs.foldl (fun out r => writeRecord out r.critical r.recordType r.body) []

end RustyTime
