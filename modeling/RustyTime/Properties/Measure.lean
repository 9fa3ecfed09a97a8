import RustyTime.Properties.Era
import RustyTime.Properties.NtsAnswer
import RustyTime.Spec.Measure

/-!
# What a measurement says of two clocks

* `secondsSince_of_stands` — differences of timestamps are exact within half an era
* `accept_near` — a sample is off by no more than half its delay, however uneven the path was
* `exchange_near` — so the root distance of an exchange covers the true time
* `exchange_measures` — and this daemon's client measures this daemon's server
-/

namespace RustyTime

open NtpTimestamp Infra

set_option linter.unusedSectionVars false

variable {R : Type} [Field R] [LinearOrder R] [IsStrictOrderedRing R]

/-! ## Timestamps -/

omit [LinearOrder R] [IsStrictOrderedRing R] in
theorem stands_iff [CharZero R] {ts : NtpTimestamp} {x : R} :
    ts.Stands x ↔
      ∃ n : Int, (ts.val.toNat : Int) = n % 2 ^ 64 ∧ x = (n : R) / 4294967296 - 2208988800 := by
  unfold Stands
  norm_num only

theorem stands_fromUnix (secs : Int64) {nanos : UInt32} (h : nanos.toNat < 1000000000) :
    (fromUnix secs nanos).Stands (instant secs nanos : R) :=
  stands_iff.mpr ⟨ticks secs nanos, toNat_fromUnix secs h, instant_eq_ticks secs nanos⟩

/-- **Within half an era the difference is exact.** -/
theorem secondsSince_of_stands {ts₁ ts₂ : NtpTimestamp} {x₁ x₂ : R} (h₁ : ts₁.Stands x₁)
    (h₂ : ts₂.Stands x₂) (hnear : |x₂ - x₁| < 2 ^ 31) : ts₂.secondsSince ts₁ = x₂ - x₁ := by
  obtain ⟨n₁, hword₁, rfl⟩ := stands_iff.mp h₁
  obtain ⟨n₂, hword₂, rfl⟩ := stands_iff.mp h₂
  have hdiff : (n₂ : R) / 4294967296 - 2208988800 - ((n₁ : R) / 4294967296 - 2208988800) =
      ((n₂ - n₁ : Int) : R) / 4294967296 := by
    push_cast
    ring
  rw [hdiff] at hnear ⊢
  -- in ticks the difference fits a signed word
  have hticks : |n₂ - n₁| < 2 ^ 63 := by
    rw [abs_div, abs_of_pos (by norm_num : (0 : R) < 4294967296), div_lt_iff₀ (by norm_num)]
      at hnear
    have hbound : ((|n₂ - n₁| : Int) : R) < ((2 ^ 63 : Int) : R) := by
      rw [Int.cast_abs]
      refine hnear.trans_le ?_
      norm_num
    exact_mod_cast hbound
  have hword := Era.toInt_sub_of_emod hword₂ hword₁ (neg_le_of_abs_le hticks.le)
    (lt_of_abs_lt hticks)
  have hfrac : (4294967296.0 : R) = 4294967296 := by norm_num
  unfold secondsSince
  rw [hword, hfrac]

/-- Setting the lowest bit. -/
theorem toNat_or_one (w : UInt64) : (w ||| 1).toNat = w.toNat + (1 - w.toNat % 2) := by
  have hdiv : (w.toNat ||| 1) / 2 = w.toNat / 2 := by
    rw [Nat.or_div_two]
    simp
  have hmod : (w.toNat ||| 1) % 2 = 1 := Nat.or_mod_two_eq_one.mpr (.inr rfl)
  rw [UInt64.toNat_or, show (1 : UInt64).toNat = 1 from rfl]
  omega

/-- Clearing it. -/
theorem toNat_and_not_one (w : UInt64) : (w &&& ~~~1).toNat = w.toNat - w.toNat % 2 := by
  have hlt := w.toNat_lt
  have hdiv : (w.toNat &&& 2 * (2 ^ 63 - 1)) / 2 = w.toNat / 2 := by
    rw [Nat.and_div_two, Nat.mul_div_cancel_left _ two_pos, Nat.and_two_pow_sub_one_eq_mod]
    omega
  have hmod := @Nat.and_mod_two_eq_one w.toNat (2 * (2 ^ 63 - 1))
  rw [UInt64.toNat_and, show (~~~(1 : UInt64)).toNat = 2 * (2 ^ 63 - 1) from rfl]
  omega

/-- A tick more is `2^-32` s more. -/
theorem le_tick {n k : Int} (hpos : 0 ≤ k) (hone : k ≤ 1) :
    (n : R) / 4294967296 ≤ ((n + k : Int) : R) / 4294967296 ∧
      ((n + k : Int) : R) / 4294967296 ≤ (n : R) / 4294967296 + 1 / 4294967296 := by
  have hk : (0 : R) ≤ k := Int.cast_nonneg hpos
  have hk' : (k : R) ≤ 1 := by exact_mod_cast hone
  push_cast
  constructor
  · linarith
  · linarith

/-- A receive stamp is marked by a tick more at most. -/
theorem stands_received {ts : NtpTimestamp} {x : R} (h : ts.Stands x) (transmit : NtpTimestamp) :
    ∃ x', (markServerTimestamps ts transmit).1.Stands x' ∧ x ≤ x' ∧ x' ≤ x + 1 / 4294967296 := by
  obtain ⟨n, hword, rfl⟩ := stands_iff.mp h
  obtain ⟨hle, hge⟩ := le_tick (R := R) (n := n) (k := 1 - n % 2) (by omega) (by omega)
  refine ⟨_, stands_iff.mpr ⟨n + (1 - n % 2), ?_, rfl⟩, by linarith, by linarith⟩
  show ((ts.val ||| 1).toNat : Int) = _
  have hmark := toNat_or_one ts.val
  omega

/-- A transmit stamp by a tick less. -/
theorem stands_sent {ts : NtpTimestamp} {x : R} (h : ts.Stands x) (receive : NtpTimestamp) :
    ∃ x', (markServerTimestamps receive ts).2.Stands x' ∧ x' ≤ x ∧ x ≤ x' + 1 / 4294967296 := by
  obtain ⟨n, hword, rfl⟩ := stands_iff.mp h
  obtain ⟨hle, hge⟩ := le_tick (R := R) (n := n - n % 2) (k := n % 2) (by omega) (by omega)
  rw [show n - n % 2 + n % 2 = n by omega] at hle hge
  refine ⟨_, stands_iff.mpr ⟨n - n % 2, ?_, rfl⟩, by linarith, by linarith⟩
  show ((ts.val &&& ~~~1).toNat : Int) = _
  have hmark := toNat_and_not_one ts.val
  omega

namespace WallTime

/-- A stamp is rounded down, by less than a tick. -/
theorem stands_stamp (t : WallTime) :
    ∃ x : R, t.stamp.Stands x ∧ x ≤ t.seconds ∧ t.seconds ≤ x + 1 / 4294967296 := by
  have hfloor : fracTicks t.nanos * 1000000000 ≤ t.nanos.toNat * 4294967296 ∧
      t.nanos.toNat * 4294967296 ≤ (fracTicks t.nanos + 1) * 1000000000 := by
    unfold fracTicks
    omega
  have hlow : (fracTicks t.nanos : R) * 1000000000 ≤ t.nanos.toNat * 4294967296 := by
    exact_mod_cast hfloor.1
  have hhigh : (t.nanos.toNat : R) * 4294967296 ≤ (fracTicks t.nanos + 1) * 1000000000 := by
    exact_mod_cast hfloor.2
  have hseconds : (t.seconds : R) = t.secs.toInt + t.nanos.toNat / 1000000000 := by
    unfold seconds ns
    push_cast
    norm_num only
    ring
  refine ⟨_, stands_fromUnix t.secs t.nanos_lt, ?_, ?_⟩
  · rw [hseconds]
    unfold instant
    refine add_le_add le_rfl ?_
    rw [div_le_div_iff₀ (by norm_num) (by norm_num)]
    exact hlow
  · rw [hseconds]
    unfold instant
    rw [add_assoc, ← add_div]
    refine add_le_add le_rfl ?_
    rw [div_le_div_iff₀ (by norm_num) (by norm_num)]
    exact hhigh

/-- The parts of a reading in nanoseconds. -/
theorem parts_ns (t : WallTime) :
    Int64.ofInt (t.ns / 1000000000) = t.secs ∧
      UInt32.ofNat (t.ns % 1000000000).toNat = t.nanos := by
  have hlt := t.nanos_lt
  have hdiv : t.ns / 1000000000 = t.secs.toInt := by unfold ns; omega
  have hmod : (t.ns % 1000000000).toNat = t.nanos.toNat := by unfold ns; omega
  rw [hdiv, hmod]
  exact ⟨Int64.ofInt_toInt _, UInt32.ofNat_toNat⟩

end WallTime

/-! ## The client -/

/-- What an accepted packet gives. -/
theorem Source.accept_eq_some {source source' : Source R} {r : Received R} {sample : Sample R}
    {stratum : UInt8} {rootDistance : R}
    (h : source.accept r = some (source', sample, stratum, rootDistance)) :
    let t1 := NtpTimestamp.fromUnix (Int64.ofInt (r.t1Ns / 1000000000))
      (UInt32.ofNat (r.t1Ns % 1000000000).toNat)
    (sample.offset, sample.delay) = offsetDelay 0 (r.packet.receiveTs.secondsSince t1)
        (r.packet.transmitTs.secondsSince t1) (((r.t4Ns - r.t1Ns : Int) : R) * 1e-9) ∧
      rootDistance = r.packet.rootDelay.toSeconds / 2.0 + r.packet.rootDispersion.toSeconds +
        sample.delay / 2.0 := by
  unfold accept at h
  split at h
  · cases h
  · dsimp only at h
    split at h
    · cases h
    · obtain ⟨-, hsample⟩ := Prod.mk.inj (Option.some.inj h)
      obtain ⟨rfl, hrest⟩ := Prod.mk.inj hsample
      obtain ⟨-, rfl⟩ := Prod.mk.inj hrest
      exact ⟨rfl, rfl⟩

/-- **Half the delay bounds the error**, however it was spent on the way there and back. -/
theorem accept_near {source source' : Source R} {r : Received R} {sample : Sample R}
    {stratum : UInt8} {rootDistance θ δ : R} {t1 : WallTime}
    (h : source.accept r = some (source', sample, stratum, rootDistance)) (ht1 : r.t1Ns = t1.ns)
    (htimely : r.packet.Timely θ δ t1.seconds ((r.t4Ns : R) * 1e-9)) :
    |sample.offset - θ| ≤ sample.delay / 2 + δ + 1 / 4294967296 := by
  obtain ⟨hsample, -⟩ := Source.accept_eq_some h
  obtain ⟨received, sent, hreceived, hsent, hrequest, hreply, hnear, hnear'⟩ := htimely
  obtain ⟨x, hx, hle, hge⟩ := t1.stands_stamp (R := R)
  rw [abs_lt] at hnear hnear'
  have htick : (1 : R) / 4294967296 ≤ 1 := by norm_num
  -- both differences are from the client's own stamp, which is rounded down
  have hreceive : r.packet.receiveTs.secondsSince t1.stamp = received - x :=
    secondsSince_of_stands hx hreceived (abs_lt.mpr ⟨by linarith, by linarith⟩)
  have htransmit : r.packet.transmitTs.secondsSince t1.stamp = sent - x :=
    secondsSince_of_stands hx hsent (abs_lt.mpr ⟨by linarith, by linarith⟩)
  obtain ⟨hsecs, hnanos⟩ := t1.parts_ns
  rw [ht1, hsecs, hnanos] at hsample
  change _ = offsetDelay 0 (r.packet.receiveTs.secondsSince t1.stamp)
    (r.packet.transmitTs.secondsSince t1.stamp) _ at hsample
  rw [hreceive, htransmit] at hsample
  obtain ⟨hoffset, hdelay⟩ := Prod.mk.inj hsample
  have ht4 : ((r.t4Ns - t1.ns : Int) : R) * 1e-9 = (r.t4Ns : R) * 1e-9 - t1.seconds := by
    unfold WallTime.seconds
    push_cast
    ring
  rw [ht4] at hoffset hdelay
  rw [hoffset, hdelay, abs_le]
  norm_num only [sub_zero]
  constructor
  · linarith
  · linarith

/-- What an exchange makes its sample of. -/
theorem exchange_found {aead : Aead} {source source' : Source R} {nts nts' : Option NtsSession}
    {inp : ExchangeInputs R} {sample : Sample R} {stratum : UInt8} {rootDistance : R}
    (h : exchange aead source nts inp = (source', nts', some (sample, stratum, rootDistance))) :
    ∃ request t1Ns t1MonoS a packet,
      (protectExchange aead nts inp).2 = some request ∧ inp.t1Ns = some t1Ns ∧
      a ∈ arrivals inp.batches ∧
      IsGenuine aead inp.nonce (protectExchange aead nts inp).1 a.bytes packet ∧
      source.accept ⟨packet, t1Ns, a.t4Ns, t1MonoS, a.t4MonoS⟩ =
        some (source', sample, stratum, rootDistance) := by
  obtain ⟨inflight, request, t1Ns, t1MonoS, packet, t4Ns, t4MonoS, hprotect, ht1Ns, -, -, hloop,
    haccept⟩ := exchange_ok h
  rw [recvLoop_eq] at hloop
  rw [hprotect]
  cases hsearch : (arrivals inp.batches).findSome? (judge aead inp.nonce inflight) with
  | none => simp [hsearch, concluded] at hloop
  | some ended =>
    rw [hsearch] at hloop
    obtain ⟨hsession, hfound⟩ := Prod.mk.inj hloop
    obtain ⟨before, a, after, harrivals, ha, -⟩ := List.findSome?_eq_some_iff.mp hsearch
    have hended : ended = (nts', .found packet t4Ns t4MonoS) :=
      Prod.ext hsession (Option.some.inj hfound)
    rw [hended] at ha
    obtain ⟨hgenuine, rfl, rfl⟩ := judge_eq_found ha
    exact ⟨request, t1Ns, t1MonoS, a, packet, rfl, ht1Ns, by rw [harrivals]; simp, hgenuine,
      haccept⟩

/-- **An exchange measures the time to within its root distance**, whatever junk arrives with the
replies, however uneven the path is, and on every side of the wraps of the era. If the timestamps
of what is genuine are timely, the sample is off by no more than half its delay. A server that is
itself off by no more than it says leaves the true time within the root distance. -/
theorem exchange_near {aead : Aead} {source source' : Source R} {nts nts' : Option NtsSession}
    {inp : ExchangeInputs R} {sample : Sample R} {stratum : UInt8} {rootDistance θ δ : R}
    {t1 : WallTime} (ht1 : inp.t1Ns = some t1.ns)
    (htimely : ∀ a ∈ arrivals inp.batches, ∀ packet,
      IsGenuine aead inp.nonce (protectExchange aead nts inp).1 a.bytes packet →
        packet.stratum ≠ 0 → packet.Timely θ δ t1.seconds ((a.t4Ns : R) * 1e-9))
    (h : exchange aead source nts inp = (source', nts', some (sample, stratum, rootDistance))) :
    |sample.offset - θ| ≤ sample.delay / 2 + δ + 1 / 4294967296 ∧
      ∃ a ∈ arrivals inp.batches, ∃ packet,
        IsGenuine aead inp.nonce (protectExchange aead nts inp).1 a.bytes packet ∧
        ∀ θ' : R, |θ' - θ| ≤ packet.rootDelay.toSeconds / 2 + packet.rootDispersion.toSeconds →
          |sample.offset - θ'| ≤ rootDistance + δ + 1 / 4294967296 := by
  obtain ⟨request, t1Ns, t1MonoS, a, packet, -, ht1Ns, ha, hgenuine, haccept⟩ := exchange_found h
  obtain rfl : t1Ns = t1.ns := Option.some.inj (ht1Ns.symm.trans ht1)
  have hstratum : packet.stratum ≠ 0 := (Source.accept_ok haccept).1
  have hnear := accept_near haccept rfl (htimely a ha packet hgenuine hstratum)
  refine ⟨hnear, a, ha, packet, hgenuine, fun θ' hθ' => ?_⟩
  obtain ⟨-, hdistance⟩ := Source.accept_eq_some haccept
  have htri := abs_sub_le sample.offset θ θ'
  rw [abs_sub_comm θ θ'] at htri
  rw [hdistance]
  norm_num only
  linarith

/-- A server's reply in the 100th second, to a client whose clock says zero. -/
def laterReply : NtpPacket :=
  { NtpPacket.clientRequest 4 ⟨0x83AA7EE400000000⟩ with
    mode := .server, stratum := 1, originTs := ⟨5⟩, receiveTs := ⟨0x83AA7EE400000000⟩ }

/-- The epoch. -/
def WallTime.epoch : WallTime := ⟨0, 0, by decide⟩

theorem WallTime.seconds_epoch : (WallTime.epoch.seconds : ℚ) = 0 := by
  rw [WallTime.seconds, show WallTime.epoch.ns = 0 by decide]
  simp

/-- An exchange without NTS that leaves at the epoch, with noise before the reply. -/
def plainInputs (reply : List UInt8) : ExchangeInputs ℚ where
  nonce := ⟨5⟩
  random := NtsSession.zeroRandom
  renewed := none
  renewedRandom := NtsSession.zeroRandom
  t1Ns := some WallTime.epoch.ns
  t1MonoS := some 0
  sent := true
  batches := [⟨[⟨[1, 2, 3], none⟩, ⟨reply, some 2000⟩], some 3000, some 1⟩]

theorem reply_of_plainInputs {reply : List UInt8} {a : Arrival ℚ}
    (ha : a ∈ arrivals (plainInputs reply).batches) (hlong : headerLen ≤ a.bytes.length) :
    a.bytes = reply ∧ a.t4Ns = 2000 := by
  rcases List.mem_cons.mp ha with rfl | ha
  · exact absurd hlong (by decide)
  · obtain rfl := List.mem_singleton.mp ha
    exact ⟨rfl, rfl⟩

theorem exchange_near_small : ∃ sample : Sample ℚ,
    (exchange Aead.checksum (Source.opened 0) none (plainInputs laterReply.toBytes)).2.2.map
      Prod.fst = some sample ∧
    |sample.offset - 100| ≤ sample.delay / 2 + 0 + 1 / 4294967296 := by
  have hsome : (exchange Aead.checksum (Source.opened (0 : ℚ)) none
      (plainInputs laterReply.toBytes)).2.2.isSome = true := by decide +kernel
  obtain ⟨⟨sample, stratum, rootDistance⟩, hresult⟩ := Option.isSome_iff_exists.mp hsome
  generalize hexchange : exchange Aead.checksum (Source.opened (0 : ℚ)) none
    (plainInputs laterReply.toBytes) = ended at hresult ⊢
  obtain ⟨source', nts', result⟩ := ended
  obtain rfl : result = some (sample, stratum, rootDistance) := hresult
  have hstands : laterReply.receiveTs.Stands (100 : ℚ) ∧ laterReply.transmitTs.Stands (100 : ℚ) :=
    ⟨⟨(2208988800 + 100) * 2 ^ 32, by decide +kernel, by norm_num⟩,
      ⟨(2208988800 + 100) * 2 ^ 32, by decide +kernel, by norm_num⟩⟩
  have ht1 : (plainInputs laterReply.toBytes).t1Ns = some WallTime.epoch.ns := rfl
  have hnear := exchange_near (θ := 100) (δ := 0) ht1 (fun a ha packet hgenuine _ => ?_) hexchange
  · exact ⟨sample, rfl, hnear.1⟩
  · obtain ⟨⟨hlong, hparse, -, -⟩, -⟩ := hgenuine
    obtain ⟨hbytes, ht4⟩ := reply_of_plainInputs ha hlong
    rw [hbytes] at hparse
    obtain rfl := Except.ok.inj (hparse.symm.trans (NtpPacket.parse_toBytes _ (.inr rfl)))
    rw [ht4, WallTime.seconds_epoch]
    exact ⟨100, 100, hstands.1, hstands.2, by norm_num, by norm_num, by norm_num, by norm_num⟩

/-! ## The server -/

/-- Protecting a request keeps its header. -/
theorem NtsSession.parse_protect {aead : Aead} {random : SystemRandom} {s s' : NtsSession}
    {inp : ExchangeInputs R} {request : List UInt8}
    (h : s.protect aead random inp.header = (s', .ok request)) :
    NtpPacket.parse request = NtpPacket.parse (NtpPacket.clientRequest 4 inp.nonce).toBytes := by
  obtain ⟨cookie, cookies, uniqueId, nonce, ciphertext, -, -, hrequest⟩ := NtsSession.protect_ok h
  rw [hrequest, protectedPart, inp.toList_header, List.append_assoc, List.append_assoc,
    List.append_assoc, NtpPacket.parse_append (NtpPacket.length_toBytes _)]

/-- A request that goes out has the header it was made from. -/
theorem parse_protectExchange {aead : Aead} {nts : Option NtsSession} {inp : ExchangeInputs R}
    {request : List UInt8} (h : (protectExchange aead nts inp).2 = some request) :
    NtpPacket.parse request = .ok (NtpPacket.clientRequest 4 inp.nonce) := by
  rw [← NtpPacket.parse_toBytes (NtpPacket.clientRequest 4 inp.nonce) (.inr rfl)]
  unfold protectExchange at h
  split at h
  · rw [← Option.some.inj h, inp.toList_header]
  · split at h
    · next hprotect => exact Option.some.inj h ▸ NtsSession.parse_protect hprotect
    · split at h
      · cases h
      · split at h
        · next hprotect => exact Option.some.inj h ▸ NtsSession.parse_protect hprotect
        · cases h
    · cases h

variable [FloorRing R] {K : Type}

/-- The timestamps of a header, stamped in basic mode. -/
theorem stamped_basic {header stamped : NtpPacket} {clock : ClockReadings R} {sent : WallTime}
    (hclock : clock.wallParts = some (sent.secs, sent.nanos))
    (h : stampTransmit header .basic clock = some stamped) :
    stamped.receiveTs = header.receiveTs ∧ stamped.version = header.version ∧
      stamped.transmitTs = (markServerTimestamps header.receiveTs sent.stamp).2 := by
  unfold stampTransmit at h
  dsimp only at h
  rw [hclock] at h
  obtain rfl := Option.some.inj h
  exact ⟨rfl, rfl, rfl⟩

/-- **A reply that carries the time** has the two readings of the server's clock, each marked. -/
theorem answer_stamped {aead : Aead} {request bytes : List UInt8} {parsed packet : NtpPacket}
    {recvTs : NtpTimestamp} {guard : ServerState K R} {clock : ClockReadings R} {sent : WallTime}
    {random : SystemRandom} (hversion : parsed.version = 3 ∨ parsed.version = 4)
    (hclock : clock.wallParts = some (sent.secs, sent.nanos))
    (h : (answer aead request parsed recvTs guard .basic clock random).map ReplyBytes.asSlice =
      some bytes)
    (hpacket : NtpPacket.parse bytes = .ok packet) (hstratum : packet.stratum ≠ 0) :
    packet.receiveTs = (markServerTimestamps recvTs recvTs).1 ∧
      packet.transmitTs = (markServerTimestamps packet.receiveTs sent.stamp).2 := by
  have hstamped : ∀ {stamped : NtpPacket} {rest : List UInt8},
      stampTransmit (replyHeader guard parsed .basic recvTs) .basic clock = some stamped →
        bytes = stamped.toBytes ++ rest →
          packet.receiveTs = (markServerTimestamps recvTs recvTs).1 ∧
            packet.transmitTs = (markServerTimestamps packet.receiveTs sent.stamp).2 := by
    intro stamped rest hstamp hbytes
    obtain ⟨hreceive, hkept, htransmit⟩ := stamped_basic hclock hstamp
    have hparse : NtpPacket.parse bytes = .ok stamped := by
      rw [hbytes, NtpPacket.parse_append (NtpPacket.length_toBytes _)]
      exact NtpPacket.parse_toBytes _ (hkept ▸ hversion)
    obtain rfl := Except.ok.inj (hpacket.symm.trans hparse)
    exact ⟨hreceive, by rw [htransmit, hreceive]⟩
  obtain ⟨reply, hreply, rfl⟩ := Option.map_eq_some_iff.mp h
  unfold answer at hreply
  dsimp only at hreply
  split at hreply
  · obtain ⟨stamped, hstamp, rfl⟩ := Option.map_eq_some_iff.mp hreply
    exact hstamped hstamp (List.append_nil _).symm
  · split at hreply
    · next uniqueId _ _ =>
      split at hreply
      · -- a NAK is a kiss
        obtain rfl := Option.some.inj hreply
        have hparse : NtpPacket.parse (ntsNak parsed recvTs uniqueId) =
            .ok (nakPacket parsed recvTs) := by
          rw [ntsNak, ntsNak_header, NtpPacket.parse_append (NtpPacket.length_toBytes _)]
          exact NtpPacket.parse_toBytes _ hversion
        obtain rfl := Except.ok.inj (hpacket.symm.trans hparse)
        exact absurd rfl hstratum
      · split at hreply
        · obtain ⟨built, hbuilt, rfl⟩ := Option.map_eq_some_iff.mp hreply
          obtain ⟨stamped, hstamp, rest, hrest⟩ := stamped_buildNtsReply hbuilt
          exact hstamped hstamp hrest.symm
        · cases hreply
    · cases hreply

variable [DecidableEq K]

/-- **A reply that is no kiss has the server's two readings**, to a tick or two. -/
theorem Answering.stands {aead : Aead} {x : Answering K R} {request bytes : List UInt8}
    {parsed packet : NtpPacket} (hparse : NtpPacket.parse request = .ok parsed)
    (horigin : parsed.originTs.isZero = true)
    (hversion : parsed.version = 3 ∨ parsed.version = 4)
    (hreply : x.reply aead request = some bytes) (hpacket : NtpPacket.parse bytes = .ok packet)
    (hstratum : packet.stratum ≠ 0) :
    ∃ received sent : R, packet.receiveTs.Stands received ∧ packet.transmitTs.Stands sent ∧
      x.received.seconds ≤ received + 1 / 4294967296 ∧
        received ≤ x.received.seconds + 1 / 4294967296 ∧ sent ≤ x.sent.seconds ∧
          x.sent.seconds ≤ sent + 2 / 4294967296 := by
  obtain ⟨reply, hbuild, hbytes⟩ := Option.map_eq_some_iff.mp hreply
  have hstamps : packet.receiveTs = (markServerTimestamps x.received.stamp x.received.stamp).1 ∧
      packet.transmitTs = (markServerTimestamps packet.receiveTs x.sent.stamp).2 := by
    rcases reply_cases hparse hbuild with hkiss | hadmitted
    · rw [← hbytes, hkiss] at hpacket
      obtain rfl := Except.ok.inj (hpacket.symm.trans (NtpPacket.parse_toBytes _ hversion))
      exact absurd rfl hstratum
    · obtain ⟨guard', handle, -, hanswer⟩ :=
        buildReplyIn_basic hadmitted hparse horigin aead x.received.stamp x.random
      rw [hanswer] at hbuild
      obtain ⟨asBytes, hasBytes, rfl⟩ := Option.map_eq_some_iff.mp hbuild
      have hclock : (⟨some x.monoS, some (x.sent.secs, x.sent.nanos)⟩ :
          ClockReadings R).wallParts = some (x.sent.secs, x.sent.nanos) := rfl
      exact answer_stamped hversion hclock (by rw [hasBytes, ← hbytes]; rfl) hpacket hstratum
  obtain ⟨received, hreceived, hle, hge⟩ := x.received.stands_stamp (R := R)
  obtain ⟨received', hreceived', hle', hge'⟩ := stands_received hreceived x.received.stamp
  obtain ⟨sent, hsent, hsle, hsge⟩ := x.sent.stands_stamp (R := R)
  obtain ⟨sent', hsent', hsle', hsge'⟩ := stands_sent hsent packet.receiveTs
  have htwo : (2 : R) / 4294967296 = 1 / 4294967296 + 1 / 4294967296 := by norm_num
  exact ⟨received', sent', hstamps.1 ▸ hreceived', hstamps.2 ▸ hsent', by linarith, by linarith,
    by linarith, by linarith⟩

/-- A reply the server makes to a first request is a kiss, or timely. -/
theorem Answering.timely {aead : Aead} {x : Answering K R} {request bytes : List UInt8}
    {parsed packet : NtpPacket} {θ t1 t4 : R} (hparse : NtpPacket.parse request = .ok parsed)
    (horigin : parsed.originTs.isZero = true)
    (hversion : parsed.version = 3 ∨ parsed.version = 4)
    (hreply : x.reply aead request = some bytes) (hpacket : NtpPacket.parse bytes = .ok packet)
    (hstratum : packet.stratum ≠ 0) (hcausal : x.Causal θ t1 t4) :
    packet.Timely θ (1 / 4294967296) t1 t4 := by
  obtain ⟨received, sent, hreceived, hsent, hle, hge, hle', hge'⟩ :=
    x.stands hparse horigin hversion hreply hpacket hstratum
  have hrequest := hcausal.request
  have hreturn := hcausal.reply
  have hnear := abs_lt.mp hcausal.received_near
  have hnear' := abs_lt.mp hcausal.sent_near
  have htick : (1 : R) / 4294967296 ≤ 1 / 2 := by norm_num
  have htwo : (2 : R) / 4294967296 = 1 / 4294967296 + 1 / 4294967296 := by norm_num
  exact ⟨received, sent, hreceived, hsent, by linarith, by linarith,
    abs_lt.mpr ⟨by linarith, by linarith⟩, abs_lt.mpr ⟨by linarith, by linarith⟩⟩

/-- **The daemon's client measures the daemon's server**, whatever junk arrives with the replies: if
all that is genuine was built by servers `θ` ahead for the request that was sent, the sample is off
by no more than half its delay and `2^-31` s. -/
theorem exchange_measures {aead : Aead} {source source' : Source R} {nts nts' : Option NtsSession}
    {inp : ExchangeInputs R} {sample : Sample R} {stratum : UInt8} {rootDistance θ : R}
    {t1 : WallTime} (ht1 : inp.t1Ns = some t1.ns)
    (hserved : ∀ request, (protectExchange aead nts inp).2 = some request →
      ∀ a ∈ arrivals inp.batches, ∀ packet,
        IsGenuine aead inp.nonce (protectExchange aead nts inp).1 a.bytes packet →
          ∃ x : Answering K R, x.reply aead request = some a.bytes ∧
            x.Causal θ t1.seconds ((a.t4Ns : R) * 1e-9))
    (h : exchange aead source nts inp = (source', nts', some (sample, stratum, rootDistance))) :
    0 ≤ sample.delay ∧ |sample.offset - θ| ≤ sample.delay / 2 + 1 / 2 ^ 31 := by
  obtain ⟨request, t1Ns, t1MonoS, a, packet, hrequest, ht1Ns, ha, hgenuine, haccept⟩ :=
    exchange_found h
  obtain rfl : t1Ns = t1.ns := Option.some.inj (ht1Ns.symm.trans ht1)
  obtain ⟨hstratum, -, -, -, -, hdelay⟩ := Source.accept_ok haccept
  obtain ⟨x, hreply, hcausal⟩ := hserved request hrequest a ha packet hgenuine
  have htimely : packet.Timely θ (1 / 4294967296) t1.seconds ((a.t4Ns : R) * 1e-9) :=
    x.timely (parse_protectExchange hrequest) rfl (.inr rfl) hreply hgenuine.addressed.parse
      hstratum hcausal
  have hnear := accept_near haccept rfl htimely
  refine ⟨hdelay, hnear.trans ?_⟩
  rw [add_assoc]
  refine add_le_add le_rfl ?_
  norm_num

/-- What a server answers one request with in its 100th second. -/
def smallAnswering (guard : ServerState ℕ ℚ) : Answering ℕ ℚ where
  guard := guard
  peer := ⟨0, 123⟩
  monoS := 0
  received := ⟨100, 0, by decide⟩
  sent := ⟨100, 0, by decide⟩
  random := NtsSession.zeroRandom

/-- The small server's reply to the request of an exchange without NTS. -/
def smallReply : List UInt8 :=
  (smallServer.bind fun guard =>
    (smallAnswering guard).reply Aead.checksum (plainInputs []).header.toList).getD []

theorem smallReply_eq : ∃ guard : ServerState ℕ ℚ,
    (smallAnswering guard).reply Aead.checksum (plainInputs []).header.toList =
      some smallReply := by
  obtain ⟨bytes, hbytes⟩ := Option.isSome_iff_exists.mp
    (show (smallServer.bind fun guard => (smallAnswering guard).reply Aead.checksum
      (plainInputs []).header.toList).isSome by decide +kernel)
  have hreply : smallReply = bytes := by
    rw [smallReply, hbytes]
    rfl
  obtain ⟨guard, -, hanswer⟩ := Option.bind_eq_some_iff.mp hbytes
  exact ⟨guard, hreply ▸ hanswer⟩

theorem seconds_smallAnswering (guard : ServerState ℕ ℚ) :
    ((smallAnswering guard).received.seconds : ℚ) = 100 ∧
      ((smallAnswering guard).sent.seconds : ℚ) = 100 := by
  have hseconds : ((WallTime.mk 100 0 (by decide)).seconds : ℚ) = 100 := by
    rw [WallTime.seconds, show (WallTime.mk 100 0 (by decide)).ns = 100000000000 by decide]
    norm_num
  exact ⟨hseconds, hseconds⟩

/-- A client whose clock says zero is 100 s behind. -/
theorem smallAnswering_causal (guard : ServerState ℕ ℚ) {t4 : ℚ} (h : 0 ≤ t4) :
    (smallAnswering guard).Causal 100 0 t4 := by
  obtain ⟨hreceived, hsent⟩ := seconds_smallAnswering guard
  constructor
  · rw [hreceived, zero_add]
  · rw [hsent]
    linarith
  · rw [hreceived]
    norm_num
  · rw [hsent]
    norm_num

theorem exchange_measures_small : ∃ sample : Sample ℚ,
    (exchange Aead.checksum (Source.opened 0) none (plainInputs smallReply)).2.2.map Prod.fst =
      some sample ∧
    |sample.offset - 100| ≤ sample.delay / 2 + 1 / 2 ^ 31 := by
  have hsome : (exchange Aead.checksum (Source.opened (0 : ℚ)) none
      (plainInputs smallReply)).2.2.isSome = true := by decide +kernel
  obtain ⟨⟨sample, stratum, rootDistance⟩, hresult⟩ := Option.isSome_iff_exists.mp hsome
  generalize hexchange : exchange Aead.checksum (Source.opened (0 : ℚ)) none
    (plainInputs smallReply) = ended at hresult ⊢
  obtain ⟨source', nts', result⟩ := ended
  obtain rfl : result = some (sample, stratum, rootDistance) := hresult
  obtain ⟨guard, hanswer⟩ := smallReply_eq
  have ht1 : (plainInputs smallReply).t1Ns = some WallTime.epoch.ns := rfl
  have hnear := exchange_measures (K := ℕ) (θ := 100) ht1
    (fun request hrequest a ha packet hgenuine => ?_) hexchange
  · exact ⟨sample, rfl, hnear.2⟩
  · obtain ⟨hfrom, ht4⟩ := reply_of_plainInputs ha hgenuine.addressed.length
    obtain rfl : (plainInputs []).header.toList = request := Option.some.inj hrequest
    refine ⟨smallAnswering guard, by rw [hanswer, hfrom], ?_⟩
    rw [ht4, WallTime.seconds_epoch]
    exact smallAnswering_causal guard (by norm_num)

end RustyTime
