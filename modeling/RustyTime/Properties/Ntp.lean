import RustyTime.Core.Ntp

/-!
# The header codec

`write` and `parse` name the offsets of the header twice. Here they are compared.

* `toBytes_eq` — the fields one after another: no offset leaves a gap or overlaps
* `parse_toBytes`, `toBytes_parse` — each undoes the other
* `codec_bijection` — and `parse` turns down nothing else
-/

namespace RustyTime.NtpPacket

open Infra.Bytes

/-! ## The layout -/

/-- The first byte of the header. -/
def firstByte (p : NtpPacket) : UInt8 :=
  (p.leap.bits <<< 6) ||| ((p.version &&& 0b111) <<< 3) ||| p.mode.bits

/-- The fields one after another. -/
theorem toBytes_eq (p : NtpPacket) :
    p.toBytes = [p.firstByte, p.stratum, p.poll.toUInt8, p.precision.toUInt8]
      ++ toBe 4 p.rootDelay.val.toNat ++ toBe 4 p.rootDispersion.val.toNat
      ++ p.referenceId.toList ++ toBe 8 p.referenceTs.val.toNat ++ toBe 8 p.originTs.val.toNat
      ++ toBe 8 p.receiveTs.val.toNat ++ toBe 8 p.transmitTs.val.toNat := by
  have hid : p.referenceId.toList.length = 4 := p.referenceId.length_toList
  unfold toBytes write
  dsimp only
  -- the four bytes before the first multi-byte field
  have hfirst : ((((List.replicate headerLen 0).set 0 p.firstByte).set 1 p.stratum).set 2
      p.poll.toUInt8).set 3 p.precision.toUInt8 =
      [p.firstByte, p.stratum, p.poll.toUInt8, p.precision.toUInt8] ++ List.replicate 44 0 := rfl
  unfold firstByte at hfirst
  rw [hfirst]
  rw [copyAt_blank 4, copyAt_blank 8, copyAt_blank 12, copyAt_blank 16, copyAt_blank 24,
    copyAt_blank 32, copyAt_blank 40]
  · simp [hid, firstByte]
  -- each field starts where the one before it ends
  all_goals simp [hid]

@[simp] theorem length_toBytes (p : NtpPacket) : p.toBytes.length = headerLen := by
  simp [toBytes_eq, headerLen]

/-! ## The first byte -/

/-- Three bits of version survive the packing, with what surrounds them. -/
theorem firstByte_fields (leap : LeapIndicator) (version : UInt8) (mode : Mode)
    (hversion : version = 3 ∨ version = 4) :
    let b := (leap.bits <<< 6) ||| ((version &&& 0b111) <<< 3) ||| mode.bits
    LeapIndicator.fromBits (b >>> 6) = leap ∧ (b >>> 3) &&& 0b111 = version ∧
      Mode.fromBits b = mode := by
  rcases hversion with rfl | rfl <;> cases leap <;> cases mode <;> decide

/-- Packing what was unpacked. -/
theorem firstByte_of_fields (b : UInt8) :
    ((LeapIndicator.fromBits (b >>> 6)).bits <<< 6) |||
      (((b >>> 3) &&& 0b111 &&& 0b111) <<< 3) ||| (Mode.fromBits b).bits = b := by
  have hall : ∀ n < 256, let b := UInt8.ofNat n
      ((LeapIndicator.fromBits (b >>> 6)).bits <<< 6) |||
        (((b >>> 3) &&& 0b111 &&& 0b111) <<< 3) ||| (Mode.fromBits b).bits = b := by
    decide +kernel
  have := hall b.toNat b.toNat_lt
  rwa [UInt8.ofNat_toNat] at this

/-- The version bits as a number. -/
theorem version_bits (b : UInt8) : ((b >>> 3) &&& 0b111).toNat = b.toNat / 8 % 8 := by
  have hall : ∀ n < 256, ((UInt8.ofNat n >>> 3) &&& 0b111).toNat = n / 8 % 8 := by
    decide +kernel
  have := hall b.toNat b.toNat_lt
  rwa [UInt8.ofNat_toNat] at this

/-! ## Reading what was written -/

theorem beU32_eq {bs : List UInt8} {off : Nat} (v : UInt32)
    (h : (bs.drop off).take 4 = toBe 4 v.toNat) : beU32 bs off = v := by
  rw [beU32, h, beNat_toBe_of_lt v.toNat_lt, UInt32.ofNat_toNat]

theorem beU64_eq {bs : List UInt8} {off : Nat} (v : UInt64)
    (h : (bs.drop off).take 8 = toBe 8 v.toNat) : beU64 bs off = v := by
  rw [beU64, h, beNat_toBe_of_lt v.toNat_lt, UInt64.ofNat_toNat]

/-- A slice of the header written, from the field that starts there. -/
theorem slice_toBytes (p : NtpPacket) :
    (p.toBytes.drop 4).take 4 = toBe 4 p.rootDelay.val.toNat ∧
      (p.toBytes.drop 8).take 4 = toBe 4 p.rootDispersion.val.toNat ∧
      (p.toBytes.drop 12).take 4 = p.referenceId.toList ∧
      (p.toBytes.drop 16).take 8 = toBe 8 p.referenceTs.val.toNat ∧
      (p.toBytes.drop 24).take 8 = toBe 8 p.originTs.val.toNat ∧
      (p.toBytes.drop 32).take 8 = toBe 8 p.receiveTs.val.toNat ∧
      (p.toBytes.drop 40).take 8 = toBe 8 p.transmitTs.val.toNat := by
  have hid : p.referenceId.toList.length = 4 := p.referenceId.length_toList
  rw [toBytes_eq]
  refine ⟨?_, ?_, ?_, ?_, ?_, ?_, ?_⟩
  all_goals simp [List.drop_append, hid, List.drop_eq_nil_of_le]

/-- Four bytes read one by one are the slice they are read from. -/
theorem bytesAt_eq (bs : List UInt8) (off : Nat) (hlen : off + 4 ≤ bs.length) :
    [byteAt bs off, byteAt bs (off + 1), byteAt bs (off + 2), byteAt bs (off + 3)] =
      (bs.drop off).take 4 := by
  have hat : ∀ i, byteAt bs (off + i) = (bs.drop off).getD i 0 := by
    intro i
    rw [byteAt, List.getD_eq_getElem?_getD, List.getD_eq_getElem?_getD, List.getElem?_drop]
  have hdrop : 4 ≤ (bs.drop off).length := by
    rw [List.length_drop]
    omega
  rw [show byteAt bs off = (bs.drop off).getD 0 0 from hat 0, hat 1, hat 2, hat 3]
  rcases hs : bs.drop off with _ | ⟨a, _ | ⟨b, _ | ⟨c, _ | ⟨d, rest⟩⟩⟩⟩
  · simp [hs] at hdrop
  · simp [hs] at hdrop
  · simp [hs] at hdrop
  · simp [hs] at hdrop
  · rfl

/-- **What is written parses as itself.** -/
theorem parse_toBytes (p : NtpPacket) (hversion : p.version = 3 ∨ p.version = 4) :
    parse p.toBytes = .ok p := by
  obtain ⟨hdelay, hdispersion, hid, href, horigin, hreceive, htransmit⟩ := p.slice_toBytes
  obtain ⟨hleap, hver, hmode⟩ := firstByte_fields p.leap p.version p.mode hversion
  have h0 : byteAt p.toBytes 0 = p.firstByte := by rw [toBytes_eq]; rfl
  have hstratum : byteAt p.toBytes 1 = p.stratum := by rw [toBytes_eq]; rfl
  have hpoll : byteAt p.toBytes 2 = p.poll.toUInt8 := by rw [toBytes_eq]; rfl
  have hprecision : byteAt p.toBytes 3 = p.precision.toUInt8 := by rw [toBytes_eq]; rfl
  have hreference : #v[byteAt p.toBytes 12, byteAt p.toBytes 13, byteAt p.toBytes 14,
      byteAt p.toBytes 15] = p.referenceId := by
    apply Vector.toList_inj.mp
    rw [← hid, ← bytesAt_eq p.toBytes 12 (by simp [headerLen])]
    rfl
  have hbits : (p.firstByte >>> 3) &&& 0b111 = p.version := hver
  have hknown : 3 ≤ p.version ∧ p.version ≤ 4 := by
    rcases hversion with h | h <;> rw [h] <;> decide
  unfold parse
  rw [if_neg (by rw [length_toBytes]; exact lt_irrefl headerLen)]
  dsimp only
  rw [h0, hbits, if_pos hknown, hstratum, hpoll, hprecision, hreference, beU32_eq _ hdelay,
    beU32_eq _ hdispersion, beU64_eq _ href, beU64_eq _ horigin, beU64_eq _ hreceive,
    beU64_eq _ htransmit, show LeapIndicator.fromBits (p.firstByte >>> 6) = p.leap from hleap,
    show Mode.fromBits p.firstByte = p.mode from hmode, Int8.toInt8_toUInt8, Int8.toInt8_toUInt8]

/-- Bytes after the header do not matter. -/
theorem parse_append {bs : List UInt8} (h : bs.length = headerLen) (rest : List UInt8) :
    parse (bs ++ rest) = parse bs := by
  have hbyte : ∀ i < 48, byteAt (bs ++ rest) i = byteAt bs i := by
    intro i hi
    have hi' : i < bs.length := by rw [h]; exact hi
    unfold byteAt
    rw [List.getD_eq_getElem?_getD, List.getD_eq_getElem?_getD, List.getElem?_append_left hi']
  have hu32 : ∀ off, off + 4 ≤ 48 → beU32 (bs ++ rest) off = beU32 bs off := by
    intro off hoff
    have hlen : off + 4 ≤ bs.length := by rw [h]; exact hoff
    unfold beU32
    rw [List.drop_append_of_le_length (by omega),
      List.take_append_of_le_length (by rw [List.length_drop]; omega)]
  have hu64 : ∀ off, off + 8 ≤ 48 → beU64 (bs ++ rest) off = beU64 bs off := by
    intro off hoff
    have hlen : off + 8 ≤ bs.length := by rw [h]; exact hoff
    unfold beU64
    rw [List.drop_append_of_le_length (by omega),
      List.take_append_of_le_length (by rw [List.length_drop]; omega)]
  have hlong : ¬(bs ++ rest).length < headerLen := by
    rw [List.length_append]
    omega
  have hexact : ¬bs.length < headerLen := by omega
  unfold parse
  rw [if_neg hlong, if_neg hexact]
  simp only [hbyte, hu32, hu64, Nat.reduceAdd, Nat.reduceLeDiff, Nat.reduceLT]

/-! ## Writing what was read -/

theorem toBe_beU32 {bs : List UInt8} {off : Nat} (h : off + 4 ≤ bs.length) :
    toBe 4 (beU32 bs off).toNat = (bs.drop off).take 4 := by
  have hlen : ((bs.drop off).take 4).length = 4 := by
    rw [List.length_take, List.length_drop]
    omega
  have hlt : beNat ((bs.drop off).take 4) < 2 ^ 32 := by
    have := beNat_lt ((bs.drop off).take 4)
    rw [hlen] at this
    exact this
  rw [beU32, UInt32.toNat_ofNat_of_lt' hlt, toBe_beNat_of_length hlen]

theorem toBe_beU64 {bs : List UInt8} {off : Nat} (h : off + 8 ≤ bs.length) :
    toBe 8 (beU64 bs off).toNat = (bs.drop off).take 8 := by
  have hlen : ((bs.drop off).take 8).length = 8 := by
    rw [List.length_take, List.length_drop]
    omega
  have hlt : beNat ((bs.drop off).take 8) < 2 ^ 64 := by
    have := beNat_lt ((bs.drop off).take 8)
    rw [hlen] at this
    exact this
  rw [beU64, UInt64.toNat_ofNat_of_lt' hlt, toBe_beNat_of_length hlen]

/-- The header cut at the offsets of its fields. -/
theorem take_headerLen (bs : List UInt8) :
    bs.take headerLen = (bs.drop 0).take 4 ++ (bs.drop 4).take 4 ++ (bs.drop 8).take 4
      ++ (bs.drop 12).take 4 ++ (bs.drop 16).take 8 ++ (bs.drop 24).take 8
      ++ (bs.drop 32).take 8 ++ (bs.drop 40).take 8 := by
  rw [List.drop_zero]
  simp only [← List.take_add, Nat.reduceAdd]
  rfl

/-- The version bits of a datagram. -/
def versionBits (bs : List UInt8) : UInt8 := (byteAt bs 0 >>> 3) &&& 0b111

/-- What `parse` makes of a string, with the conditions it checks. -/
theorem parse_cases (bs : List UInt8) :
    bs.length < headerLen ∧ parse bs = .error (.tooShort bs.length) ∨
      headerLen ≤ bs.length ∧ ¬(3 ≤ versionBits bs ∧ versionBits bs ≤ 4) ∧
        parse bs = .error (.badVersion (versionBits bs)) ∨
      headerLen ≤ bs.length ∧ (3 ≤ versionBits bs ∧ versionBits bs ≤ 4) ∧
        ∃ p, parse bs = .ok p ∧ p.toBytes = bs.take headerLen := by
  unfold parse
  rcases Nat.lt_or_ge bs.length headerLen with hshort | hlong
  · exact .inl ⟨hshort, if_pos hshort⟩
  · refine .inr ?_
    rw [if_neg (Nat.not_lt.mpr hlong)]
    dsimp only
    by_cases hversion : 3 ≤ versionBits bs ∧ versionBits bs ≤ 4
    · refine .inr ⟨hlong, hversion, _, if_pos hversion, ?_⟩
      have hlen : 48 ≤ bs.length := hlong
      rw [toBytes_eq, take_headerLen, ← bytesAt_eq bs 0 (by omega)]
      simp only [firstByte, firstByte_of_fields, UInt8.toUInt8_toInt8]
      rw [toBe_beU32 (by omega), toBe_beU32 (by omega), toBe_beU64 (by omega),
        toBe_beU64 (by omega), toBe_beU64 (by omega), toBe_beU64 (by omega),
        ← bytesAt_eq bs 12 (by omega)]
      rfl
    · exact .inl ⟨hlong, hversion, if_neg hversion⟩

/-- **What parses is what its packet writes.** -/
theorem toBytes_parse {bs : List UInt8} {p : NtpPacket} (h : parse bs = .ok p) :
    p.toBytes = bs.take headerLen := by
  rcases parse_cases bs with ⟨-, herr⟩ | ⟨-, -, herr⟩ | ⟨-, -, p', hok, hbytes⟩
  · exact absurd (herr.symm.trans h) (by intro hne; cases hne)
  · exact absurd (herr.symm.trans h) (by intro hne; cases hne)
  · rw [hok] at h
    cases h
    exact hbytes

theorem versionBits_known (bs : List UInt8) :
    (3 ≤ versionBits bs ∧ versionBits bs ≤ 4) ↔
      (byteAt bs 0).toNat / 8 % 8 = 3 ∨ (byteAt bs 0).toNat / 8 % 8 = 4 := by
  rw [UInt8.le_iff_toNat_le, UInt8.le_iff_toNat_le, versionBits, version_bits]
  show 3 ≤ _ ∧ _ ≤ 4 ↔ _
  omega

/--
**The codec is a bijection on what it accepts.** A packet of version 3 or 4 survives being written
and parsed, the header of every datagram that parses survives being parsed and written, and
what does not parse is shorter than a header or has another version in its version bits.
-/
theorem codec_bijection :
    (∀ p : NtpPacket, p.version = 3 ∨ p.version = 4 → parse p.toBytes = .ok p) ∧
      (∀ bs p, parse bs = .ok p → p.toBytes = bs.take headerLen) ∧
      ∀ bs, (∃ e, parse bs = .error e) ↔
        bs.length < headerLen ∨
          ¬((byteAt bs 0).toNat / 8 % 8 = 3 ∨ (byteAt bs 0).toNat / 8 % 8 = 4) := by
  refine ⟨parse_toBytes, fun bs p h => toBytes_parse h, fun bs => ?_⟩
  rw [← versionBits_known]
  rcases parse_cases bs with ⟨hshort, herr⟩ | ⟨-, hversion, herr⟩ | ⟨hlong, hversion, p, hok, -⟩
  · exact ⟨fun _ => .inl hshort, fun _ => ⟨_, herr⟩⟩
  · exact ⟨fun _ => .inr hversion, fun _ => ⟨_, herr⟩⟩
  · constructor
    · rintro ⟨e, herr⟩
      exact absurd (hok.symm.trans herr) (by intro hne; cases hne)
    · rintro (hshort | hother)
      · exact absurd hshort (Nat.not_lt.mpr hlong)
      · exact absurd hversion hother

end RustyTime.NtpPacket
