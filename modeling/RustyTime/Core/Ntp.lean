import Mathlib.Algebra.Order.Ring.Unbundled.Rat
import Mathlib.Algebra.Order.Floor.Ring
import Mathlib.Algebra.Field.Defs
import RustyTime.Infra.Bytes

/-!
# NTPv4 timestamps and the fixed header

`rusty_time-core/src/ntp.rs`: the 64-bit timestamp, the 16.16 short format, the two wire
enumerations and the 48-byte header with its parser and serializer. A byte string is a
`List UInt8`; the fixed-width fields keep their machine types. Seconds as `f64` are numbers of
an ordered field `R`.
-/

namespace RustyTime

open Infra.Bytes

/-! ## Timestamps -/

/-- 64-bit NTP timestamp: 32.32 fixed-point seconds since the era epoch. -/
structure NtpTimestamp where
  val : UInt64
deriving DecidableEq, Repr

/-- 32-bit NTP short format: 16.16 fixed-point seconds. -/
structure NtpShort where
  val : UInt32
deriving DecidableEq, Repr

namespace NtpTimestamp

def zero : NtpTimestamp := ⟨0⟩

/-- `NtpTimestamp::from_unix`. The second count keeps its low 32 bits, so eras wrap. -/
def fromUnix (secs : Int64) (nanos : UInt32) : NtpTimestamp :=
  let ntpSecs := (secs + 2208988800).toUInt64
  let frac := (nanos.toUInt64 <<< 32) / 1000000000
  ⟨((ntpSecs &&& 0xFFFFFFFF) <<< 32) ||| (frac &&& 0xFFFFFFFF)⟩

def isZero (ts : NtpTimestamp) : Bool := ts.val == 0

def seconds (ts : NtpTimestamp) : UInt32 := (ts.val >>> 32).toUInt32

def fraction (ts : NtpTimestamp) : UInt32 := ts.val.toUInt32

/-- `seconds_since`: the wrapped difference read as a signed count of `2^-32` s. -/
def secondsSince {R : Type*} [Field R] (self earlier : NtpTimestamp) : R :=
  ((self.val - earlier.val).toInt64.toInt : R) / 4294967296.0

end NtpTimestamp

namespace NtpShort

variable {R : Type*} [Field R]

def toSeconds (s : NtpShort) : R := (s.val.toNat : R) / 65536.0

/-- `NtpShort::from_seconds`. The clamp keeps the cast inside `u32`. -/
def fromSeconds [LinearOrder R] [FloorRing R] (s : R) : NtpShort :=
  ⟨UInt32.ofNat (⌊max 0 (min s 65535.999) * 65536.0⌋.toNat)⟩

end NtpShort

/-- `offset_delay`: the offset and the round-trip delay of one exchange. -/
def offsetDelay {R : Type*} [Field R] (t1 t2 t3 t4 : R) : R × R :=
  (((t2 - t1) + (t3 - t4)) / 2.0, (t4 - t1) - (t3 - t2))

/-! ## Wire enumerations -/

inductive LeapIndicator where
  | noWarning
  | lastMinute61
  | lastMinute59
  | unsynchronized
deriving DecidableEq, Repr

def LeapIndicator.fromBits (b : UInt8) : LeapIndicator :=
  match (b &&& 0b11).toNat with
  | 0 => .noWarning
  | 1 => .lastMinute61
  | 2 => .lastMinute59
  | _ => .unsynchronized

def LeapIndicator.bits : LeapIndicator → UInt8
  | .noWarning => 0
  | .lastMinute61 => 1
  | .lastMinute59 => 2
  | .unsynchronized => 3

inductive Mode where
  | reserved
  | symmetricActive
  | symmetricPassive
  | client
  | server
  | broadcast
  | control
  | privateUse
deriving DecidableEq, Repr

def Mode.fromBits (b : UInt8) : Mode :=
  match (b &&& 0b111).toNat with
  | 1 => .symmetricActive
  | 2 => .symmetricPassive
  | 3 => .client
  | 4 => .server
  | 5 => .broadcast
  | 6 => .control
  | 7 => .privateUse
  | _ => .reserved

def Mode.bits : Mode → UInt8
  | .reserved => 0
  | .symmetricActive => 1
  | .symmetricPassive => 2
  | .client => 3
  | .server => 4
  | .broadcast => 5
  | .control => 6
  | .privateUse => 7

/-! ## The fixed header -/

/-- `HEADER_LEN`. -/
def headerLen : Nat := 48

inductive ParseError where
  /-- Fewer than 48 bytes. -/
  | tooShort (len : Nat)
  /-- Version outside 3..=4. -/
  | badVersion (version : UInt8)
deriving DecidableEq, Repr

structure NtpPacket where
  leap : LeapIndicator
  version : UInt8
  mode : Mode
  stratum : UInt8
  poll : Int8
  precision : Int8
  rootDelay : NtpShort
  rootDispersion : NtpShort
  referenceId : Vector UInt8 4
  referenceTs : NtpTimestamp
  originTs : NtpTimestamp
  receiveTs : NtpTimestamp
  transmitTs : NtpTimestamp
deriving DecidableEq, Repr

namespace NtpPacket

/-- The byte at a fixed offset of the header. -/
def byteAt (h : List UInt8) (off : Nat) : UInt8 := h.getD off 0

/-- `be_u32` at a fixed offset. -/
def beU32 (h : List UInt8) (off : Nat) : UInt32 := UInt32.ofNat (beNat ((h.drop off).take 4))

/-- `be_u64` at a fixed offset. -/
def beU64 (h : List UInt8) (off : Nat) : UInt64 := UInt64.ofNat (beNat ((h.drop off).take 8))

/-- `NtpPacket::client_request`. -/
def clientRequest (version : UInt8) (transmitTs : NtpTimestamp) : NtpPacket where
  leap := .noWarning
  version := version
  mode := .client
  stratum := 0
  poll := 0
  precision := 0x20
  rootDelay := ⟨0⟩
  rootDispersion := ⟨0⟩
  referenceId := #v[0, 0, 0, 0]
  referenceTs := .zero
  originTs := .zero
  receiveTs := .zero
  transmitTs := transmitTs

/-- `NtpPacket::parse`. Bytes after the header are left to the extension-field readers. -/
def parse (buf : List UInt8) : Except ParseError NtpPacket :=
  if buf.length < headerLen then .error (.tooShort buf.length)
  else
    let b0 := byteAt buf 0
    let version := (b0 >>> 3) &&& 0b111
    if 3 ≤ version ∧ version ≤ 4 then
      .ok
        { leap := LeapIndicator.fromBits (b0 >>> 6)
          version := version
          mode := Mode.fromBits b0
          stratum := byteAt buf 1
          poll := (byteAt buf 2).toInt8
          precision := (byteAt buf 3).toInt8
          rootDelay := ⟨beU32 buf 4⟩
          rootDispersion := ⟨beU32 buf 8⟩
          referenceId := #v[byteAt buf 12, byteAt buf 13, byteAt buf 14, byteAt buf 15]
          referenceTs := ⟨beU64 buf 16⟩
          originTs := ⟨beU64 buf 24⟩
          receiveTs := ⟨beU64 buf 32⟩
          transmitTs := ⟨beU64 buf 40⟩ }
    else .error (.badVersion version)

/-- `NtpPacket::write`. Every field goes to its own offset of the 48-byte buffer. -/
def write (p : NtpPacket) (buf : List UInt8) : List UInt8 :=
  let buf := buf.set 0 ((p.leap.bits <<< 6) ||| ((p.version &&& 0b111) <<< 3) ||| p.mode.bits)
  let buf := buf.set 1 p.stratum
  let buf := buf.set 2 p.poll.toUInt8
  let buf := buf.set 3 p.precision.toUInt8
  let buf := copyAt buf 4 (toBe 4 p.rootDelay.val.toNat)
  let buf := copyAt buf 8 (toBe 4 p.rootDispersion.val.toNat)
  let buf := copyAt buf 12 p.referenceId.toList
  let buf := copyAt buf 16 (toBe 8 p.referenceTs.val.toNat)
  let buf := copyAt buf 24 (toBe 8 p.originTs.val.toNat)
  let buf := copyAt buf 32 (toBe 8 p.receiveTs.val.toNat)
  copyAt buf 40 (toBe 8 p.transmitTs.val.toNat)

/-- `NtpPacket::to_bytes`. -/
def toBytes (p : NtpPacket) : List UInt8 := p.write (List.replicate headerLen 0)

end NtpPacket

/-! ## What follows the header -/

/-- `ExtensionField`. -/
structure ExtensionField where
  fieldType : Nat
  value : List UInt8
deriving DecidableEq

/-- `Trailer`. -/
inductive Trailer where
  | extension (field : ExtensionField)
  /-- Bytes that cannot be a field. -/
  | opaqueBytes (bytes : List UInt8)
deriving DecidableEq

/-- `ExtensionIter`. -/
structure ExtensionIter where
  rest : List UInt8

/-- `ExtensionIter::next`: the item and the iterator after it. -/
def ExtensionIter.next (self : ExtensionIter) : Option (Trailer × ExtensionIter) :=
  if self.rest = [] then none
  else
    let len := beNat ((self.rest.drop 2).take 2)
    if 4 ≤ self.rest.length ∧ 16 ≤ len ∧ len % 4 = 0 ∧ len ≤ self.rest.length then
      some
        (.extension
          { fieldType := beNat (self.rest.take 2), value := (self.rest.take len).drop 4 },
          ⟨self.rest.drop len⟩)
    else some (.opaqueBytes self.rest, ⟨[]⟩)

/-- `extension_fields`. A packet shorter than its header has nothing after it. -/
def extensionFields (packet : List UInt8) : ExtensionIter := ⟨packet.drop headerLen⟩

end RustyTime
