import RustyTime.Daemon.Exchange
import RustyTime.Properties.CookieStore

/-!
# What an exchange takes for its reply

The receive loop over batches is a search through the datagrams in the order they came: each is
passed over or ends the search. Datagrams that are passed over leave no trace, in whatever
batches they come.

* `recvLoop_eq` — the batches do not matter
* `judge_eq_none_iff`, `judge_eq_found` — which datagrams are passed over, and which are found
* `exchange_first_genuine` — a sample comes from the first genuine reply, whatever junk is about
-/

namespace RustyTime

variable {R : Type} [Field R] [LinearOrder R]

/-- A datagram with its receive stamps. -/
structure Arrival (R : Type) where
  bytes : List UInt8
  t4Ns : Int
  t4MonoS : R

/-- A datagram of a batch whose clock was read. -/
def Message.arrive (wallNs : Int) (monoS : R) (message : Message) : Arrival R :=
  ⟨message.bytes, (message.t4 wallNs monoS).1, (message.t4 wallNs monoS).2⟩

/-- The datagrams in the order the loop meets them, up to a clock that cannot be read. -/
def arrivals : List (Batch R) → List (Arrival R)
  | [] => []
  | batch :: batches =>
    match batch.wallNs, batch.monoS with
    | some wallNs, some monoS =>
      batch.messages.map (Message.arrive wallNs monoS) ++ arrivals batches
    | _, _ => []

/-! ## One datagram -/

/-- A packet of a server that answers the request with this nonce. -/
structure Addressed (nonce : NtpTimestamp) (bytes : List UInt8) (packet : NtpPacket) : Prop where
  length : headerLen ≤ bytes.length
  parse : NtpPacket.parse bytes = .ok packet
  mode : packet.mode = .server
  origin : packet.originTs = nonce

/-- Under NTS, it verifies under the session against the request in flight. -/
def Verifies (aead : Aead) (nts : Option NtsSession) (bytes : List UInt8) : Prop :=
  ∀ session, nts = some session → (session.verify aead bytes).2 = .ok ()

/-- A reply to take: it answers the request, and it verifies. -/
structure IsGenuine (aead : Aead) (nonce : NtpTimestamp) (nts : Option NtsSession)
    (bytes : List UInt8) (packet : NtpPacket) : Prop where
  addressed : Addressed nonce bytes packet
  verifies : Verifies aead nts bytes

/-- It fails one of the first tests, or verification without being a kiss. -/
def Junk (aead : Aead) (nonce : NtpTimestamp) (nts : Option NtsSession) (bytes : List UInt8) :
    Prop :=
  ∀ packet, Addressed nonce bytes packet → ¬Verifies aead nts bytes ∧ isNtsn packet = false

/-- The packet of a datagram that answers the request. -/
def addressedPacket (nonce : NtpTimestamp) (bytes : List UInt8) : Option NtpPacket :=
  if bytes.length < headerLen then none
  else
    match NtpPacket.parse bytes with
    | .error _ => none
    | .ok p => if p.originTs = nonce ∧ p.mode = .server then some p else none

theorem addressedPacket_eq_some {nonce : NtpTimestamp} {bytes : List UInt8} {packet : NtpPacket} :
    addressedPacket nonce bytes = some packet ↔ Addressed nonce bytes packet := by
  constructor
  · intro h
    unfold addressedPacket at h
    split at h
    · cases h
    · next hlong =>
      split at h
      · cases h
      · next p hparse =>
        split at h
        · next htests =>
          obtain rfl := Option.some.inj h
          exact ⟨Nat.not_lt.mp hlong, hparse, htests.2, htests.1⟩
        · cases h
  · rintro ⟨hlong, hparse, hmode, horigin⟩
    unfold addressedPacket
    rw [if_neg (Nat.not_lt.mpr hlong), hparse]
    simp [hmode, horigin]

/-- What the loop makes of one datagram: it is passed over, or it ends the loop and leaves the
session so. -/
def judge (aead : Aead) (nonce : NtpTimestamp) (nts : Option NtsSession) (a : Arrival R) :
    Option (Option NtsSession × Answer R) :=
  match addressedPacket nonce a.bytes with
  | none => none
  | some packet =>
    match nts with
    | none => some (none, .found packet a.t4Ns a.t4MonoS)
    | some session =>
      match session.verify aead a.bytes with
      | (session, .ok _) => some (some session, .found packet a.t4Ns a.t4MonoS)
      | (session, .error _) =>
        if isNtsn packet then some (some session.forgetCookies, .nak) else none

variable {aead : Aead} {nonce : NtpTimestamp} {nts : Option NtsSession}

/-- A packet that does not verify leaves the session as it is. -/
theorem NtsSession.verify_error {s s' : NtsSession} {packet : List UInt8} {e : NtsSessionError}
    (h : s.verify aead packet = (s', .error e)) : s' = s := by
  rcases NtsSession.verify_cases aead s packet with ⟨e', hrefused⟩ | ⟨_, _, _, _, hbanked⟩
  · exact (Prod.mk.inj (h.symm.trans hrefused)).1
  · cases (Prod.mk.inj (h.symm.trans hbanked)).2

omit [Field R] [LinearOrder R] in
/-- What is passed over is junk. -/
theorem judge_eq_none_iff {a : Arrival R} :
    judge aead nonce nts a = none ↔ Junk aead nonce nts a.bytes := by
  unfold judge Junk
  cases hpacket : addressedPacket nonce a.bytes with
  | none =>
    refine iff_of_true rfl ?_
    intro packet haddressed
    rw [addressedPacket_eq_some.mpr haddressed] at hpacket
    cases hpacket
  | some packet =>
    have haddressed := addressedPacket_eq_some.mp hpacket
    -- the packet is the one in the datagram
    have honly : ∀ p, Addressed nonce a.bytes p → p = packet := by
      intro p hp
      exact Option.some.inj ((addressedPacket_eq_some.mpr hp).symm.trans hpacket)
    cases nts with
    | none =>
      refine iff_of_false (by simp) ?_
      intro hjunk
      exact (hjunk packet haddressed).1 (by simp [Verifies])
    | some session =>
      cases hverify : session.verify aead a.bytes with
      | mk s' result =>
        cases result with
        | ok _ =>
          refine iff_of_false (by simp [hverify]) ?_
          intro hjunk
          exact (hjunk packet haddressed).1 (by simp [Verifies, hverify])
        | error e =>
          have hfails : ¬Verifies aead (some session) a.bytes := by
            simp [Verifies, hverify]
          constructor
          · intro hnone p hp
            obtain rfl := honly p hp
            refine ⟨hfails, ?_⟩
            by_contra hkiss
            simp [hverify, hkiss] at hnone
          · intro hjunk
            simp [hverify, (hjunk packet haddressed).2]

omit [Field R] [LinearOrder R] in
/-- What is taken is genuine. -/
theorem judge_eq_found {a : Arrival R} {nts' : Option NtsSession} {packet : NtpPacket} {t4Ns : Int}
    {t4MonoS : R} (h : judge aead nonce nts a = some (nts', .found packet t4Ns t4MonoS)) :
    IsGenuine aead nonce nts a.bytes packet ∧ t4Ns = a.t4Ns ∧ t4MonoS = a.t4MonoS := by
  unfold judge at h
  cases hpacket : addressedPacket nonce a.bytes with
  | none => simp [hpacket] at h
  | some p =>
    have haddressed := addressedPacket_eq_some.mp hpacket
    rw [hpacket] at h
    cases nts with
    | none =>
      simp at h
      obtain ⟨-, rfl, rfl, rfl⟩ := h
      exact ⟨⟨haddressed, by simp [Verifies]⟩, rfl, rfl⟩
    | some session =>
      cases hverify : session.verify aead a.bytes with
      | mk s' result =>
        cases result with
        | ok _ =>
          simp [hverify] at h
          obtain ⟨-, rfl, rfl, rfl⟩ := h
          exact ⟨⟨haddressed, by simp [Verifies, hverify]⟩, rfl, rfl⟩
        | error e =>
          dsimp only at h
          rw [hverify] at h
          dsimp only at h
          split at h <;> simp at h

/-! ## The loop -/

/-- The end of a search: what it found, or the session as it was. -/
def concluded (nts : Option NtsSession) :
    Option (Option NtsSession × Answer R) → Option NtsSession × Option (Answer R)
  | none => (nts, none)
  | some (nts', answer) => (nts', some answer)

/-- One batch is searched in order. -/
theorem scanBatch_eq (wallNs : Int) (monoS : R) (messages : List Message) :
    scanBatch aead nonce wallNs monoS nts messages =
      concluded nts
        ((messages.map (Message.arrive wallNs monoS)).findSome? (judge aead nonce nts)) := by
  induction messages with
  | nil => rfl
  | cons message messages ih =>
    rw [List.map_cons, List.findSome?_cons]
    unfold scanBatch judge addressedPacket Message.arrive
    dsimp only
    split
    · exact ih
    · cases hparse : NtpPacket.parse message.bytes with
      | error e => exact ih
      | ok p =>
        dsimp only
        split
        · cases nts with
          | none => rfl
          | some session =>
            dsimp only
            cases hverify : session.verify aead message.bytes with
            | mk s' result =>
              cases result with
              | ok _ => rfl
              | error e =>
                obtain rfl := NtsSession.verify_error hverify
                dsimp only
                split
                · rfl
                · exact ih
        · exact ih

/-- **The batches do not matter**: the loop is a search through the arrivals. -/
theorem recvLoop_eq (batches : List (Batch R)) :
    recvLoop aead nonce nts batches =
      concluded nts ((arrivals batches).findSome? (judge aead nonce nts)) := by
  induction batches with
  | nil => rfl
  | cons batch batches ih =>
    unfold recvLoop arrivals
    cases batch.wallNs with
    | none => rfl
    | some wallNs =>
      cases batch.monoS with
      | none => rfl
      | some monoS =>
        dsimp only
        rw [scanBatch_eq, List.findSome?_append]
        cases (batch.messages.map (Message.arrive wallNs monoS)).findSome? (judge aead nonce nts)
          with
        | none => exact ih
        | some ended => rfl

/-! ## The exchange -/

/-- What a source needs of a packet to take its time. -/
theorem Source.accept_ok {source source' : Source R} {r : Received R} {sample : Sample R}
    {stratum : UInt8} {rootDistance : R}
    (h : source.accept r = some (source', sample, stratum, rootDistance)) :
    r.packet.stratum ≠ 0 ∧ r.packet.stratum ≤ 15 ∧ r.packet.leap ≠ .unsynchronized ∧
      r.packet.receiveTs.isZero = false ∧ r.packet.transmitTs.isZero = false ∧
        0 ≤ sample.delay := by
  unfold accept at h
  split at h
  · cases h
  · next husable =>
    dsimp only at h
    split at h
    · cases h
    · next hdelay =>
      obtain ⟨-, hsample⟩ := Prod.mk.inj (Option.some.inj h)
      obtain ⟨rfl, -⟩ := Prod.mk.inj hsample
      simp [usable] at husable
      exact ⟨husable.1.1.1, husable.1.1.2, husable.1.2, husable.2.2, husable.2.1,
        not_lt.mp hdelay⟩

/-- An exchange that gives a sample got past every early exit. -/
theorem exchange_ok {source source' : Source R} {nts' : Option NtsSession}
    {inp : ExchangeInputs R} {sample : Sample R} {stratum : UInt8} {rootDistance : R}
    (h : exchange aead source nts inp = (source', nts', some (sample, stratum, rootDistance))) :
    ∃ inflight request t1Ns t1MonoS packet t4Ns t4MonoS,
      protectExchange aead nts inp = (inflight, some request) ∧ inp.t1Ns = some t1Ns ∧
        inp.t1MonoS = some t1MonoS ∧ inp.sent = true ∧
          recvLoop aead inp.nonce inflight inp.batches =
            (nts', some (.found packet t4Ns t4MonoS)) ∧
          source.accept ⟨packet, t1Ns, t4Ns, t1MonoS, t4MonoS⟩ =
            some (source', sample, stratum, rootDistance) := by
  unfold exchange at h
  split at h
  · simp at h
  · next inflight request hprotect =>
    split at h
    · next t1Ns t1MonoS ht1Ns ht1MonoS =>
      split at h
      · simp at h
      · next hsent =>
        split at h
        · next nts'' packet t4Ns t4MonoS hloop =>
          split at h
          · next source'' sample' stratum' rootDistance' haccept =>
            simp only [Prod.mk.injEq, Option.some.injEq] at h
            obtain ⟨rfl, rfl, rfl, rfl, rfl⟩ := h
            exact ⟨inflight, request, t1Ns, t1MonoS, packet, t4Ns, t4MonoS, hprotect, ht1Ns,
              ht1MonoS, by simpa using hsent, hloop, haccept⟩
          · simp at h
        · simp at h
    · simp at h

/-- The same exchange over other batches, where the loop ends the same way. -/
theorem exchange_of_recvLoop {source source' : Source R} {nts' inflight : Option NtsSession}
    {inp : ExchangeInputs R} {request : List UInt8} {t1Ns t4Ns : Int} {t1MonoS t4MonoS : R}
    {packet : NtpPacket} {sample : Sample R} {stratum : UInt8} {rootDistance : R}
    (hprotect : protectExchange aead nts inp = (inflight, some request))
    (ht1Ns : inp.t1Ns = some t1Ns) (ht1MonoS : inp.t1MonoS = some t1MonoS)
    (hsent : inp.sent = true) {batches : List (Batch R)}
    (hloop : recvLoop aead inp.nonce inflight batches =
      (nts', some (.found packet t4Ns t4MonoS)))
    (haccept : source.accept ⟨packet, t1Ns, t4Ns, t1MonoS, t4MonoS⟩ =
      some (source', sample, stratum, rootDistance)) :
    exchange aead source nts { inp with batches := batches } =
      (source', nts', some (sample, stratum, rootDistance)) := by
  have hprotect' : protectExchange aead nts { inp with batches := batches } =
      (inflight, some request) := hprotect
  unfold exchange
  rw [hprotect']
  dsimp only
  rw [ht1Ns, ht1MonoS]
  dsimp only
  rw [hsent, hloop]
  dsimp only
  rw [haccept]
  rfl

omit [Field R] [LinearOrder R] in
/-- A search past junk finds what is behind it. -/
theorem findSome_judge {before after : List (Arrival R)} {a : Arrival R}
    (h : ∀ x ∈ before, Junk aead nonce nts x.bytes) {ended : Option NtsSession × Answer R}
    (ha : judge aead nonce nts a = some ended) :
    (before ++ a :: after).findSome? (judge aead nonce nts) = some ended := by
  have hnone : before.findSome? (judge aead nonce nts) = none := by
    rw [List.findSome?_eq_none_iff]
    intro x hx
    exact judge_eq_none_iff.mpr (h x hx)
  rw [List.findSome?_append, hnone, Option.none_or, List.findSome?_cons, ha]

/-- **Only a genuine, usable reply makes a sample, and junk cannot displace it.** A sample comes
from the first genuine reply to the request; that is of a synchronised server and can have
happened; and over any other datagrams, in any batches, with more junk in front of that reply,
the exchange comes to the same sample and leaves the same session. -/
theorem exchange_first_genuine {source source' : Source R} {nts' : Option NtsSession}
    {inp : ExchangeInputs R} {sample : Sample R} {stratum : UInt8} {rootDistance : R}
    (h : exchange aead source nts inp = (source', nts', some (sample, stratum, rootDistance))) :
    ∃ inflight request t1Ns t1MonoS before reply after packet,
      protectExchange aead nts inp = (inflight, some request) ∧
      inp.t1Ns = some t1Ns ∧ inp.t1MonoS = some t1MonoS ∧
      arrivals inp.batches = before ++ reply :: after ∧
      (∀ x ∈ before, ∀ p, ¬IsGenuine aead inp.nonce inflight x.bytes p) ∧
      IsGenuine aead inp.nonce inflight reply.bytes packet ∧
      source.accept ⟨packet, t1Ns, reply.t4Ns, t1MonoS, reply.t4MonoS⟩ =
        some (source', sample, stratum, rootDistance) ∧
      packet.stratum ≠ 0 ∧ packet.stratum ≤ 15 ∧ packet.leap ≠ .unsynchronized ∧
      packet.receiveTs.isZero = false ∧ packet.transmitTs.isZero = false ∧ 0 ≤ sample.delay ∧
      ∀ batches before' after', arrivals batches = before' ++ reply :: after' →
        (∀ x ∈ before', x ∈ before ∨ Junk aead inp.nonce inflight x.bytes) →
          exchange aead source nts { inp with batches := batches } =
            (source', nts', some (sample, stratum, rootDistance)) := by
  obtain ⟨inflight, request, t1Ns, t1MonoS, packet, t4Ns, t4MonoS, hprotect, ht1Ns, ht1MonoS, hsent,
    hloop, haccept⟩ := exchange_ok h
  rw [recvLoop_eq] at hloop
  cases hsearch : (arrivals inp.batches).findSome? (judge aead inp.nonce inflight) with
  | none => simp [hsearch, concluded] at hloop
  | some ended =>
    rw [hsearch] at hloop
    obtain ⟨hsession, hfound⟩ := Prod.mk.inj hloop
    obtain ⟨before, reply, after, harrivals, hreply, hbefore⟩ :=
      List.findSome?_eq_some_iff.mp hsearch
    have hended : ended = (nts', .found packet t4Ns t4MonoS) :=
      Prod.ext hsession (Option.some.inj hfound)
    rw [hended] at hreply
    obtain ⟨hgenuine, rfl, rfl⟩ := judge_eq_found hreply
    have hjunk : ∀ x ∈ before, Junk aead inp.nonce inflight x.bytes := by
      intro x hx
      exact judge_eq_none_iff.mp (hbefore x hx)
    obtain ⟨hkiss, hstratum, hleap, hreceive, htransmit, hdelay⟩ := Source.accept_ok haccept
    refine ⟨inflight, request, t1Ns, t1MonoS, before, reply, after, packet, hprotect, ht1Ns,
      ht1MonoS, harrivals, ?_, hgenuine, haccept, hkiss, hstratum, hleap, hreceive, htransmit,
      hdelay, ?_⟩
    · intro x hx p hp
      exact (hjunk x hx p hp.addressed).1 hp.verifies
    · intro batches before' after' harrivals' hbefore'
      have hjunk' : ∀ x ∈ before', Junk aead inp.nonce inflight x.bytes := by
        intro x hx
        rcases hbefore' x hx with hold | hnew
        · exact hjunk x hold
        · exact hnew
      refine exchange_of_recvLoop hprotect ht1Ns ht1MonoS hsent ?_ haccept
      rw [recvLoop_eq, harrivals', findSome_judge hjunk' hreply]
      rfl

/-! ### One exchange under NTS -/

/-- A server's reply to nonce 5, under the identifier that `zeroRandom` gives. -/
def sealedEcho : List UInt8 :=
  let front := ({ NtpPacket.clientRequest 4 .zero with
      mode := .server
      stratum := 2
      originTs := ⟨5⟩
      receiveTs := ⟨0x83AA7E8000000000⟩
      transmitTs := ⟨0x83AA7E8000000000⟩ } : NtpPacket).toBytes
    ++ Ef.writeField FieldType.uniqueIdentifier (List.replicate 32 0)
  let nonce := List.replicate 16 4
  front ++ Ef.writeAuthenticator nonce
    ((Aead.checksum.encrypt sessionKeys.s2c [front, nonce] []).getD [])

/-- The reply behind its own header without the authenticator, and behind noise. -/
def echoInputs : ExchangeInputs ℚ where
  nonce := ⟨5⟩
  random := NtsSession.zeroRandom
  renewed := none
  renewedRandom := NtsSession.zeroRandom
  t1Ns := some 0
  t1MonoS := some 0
  sent := true
  batches :=
    [⟨[⟨[1, 2, 3], none⟩, ⟨sealedEcho.take 48, none⟩], some 1000, some 1⟩,
      ⟨[⟨sealedEcho, some 2000⟩], some 3000, some 1⟩]

theorem exchange_first_genuine_small : ∃ (sample : Sample ℚ) (inflight : Option NtsSession)
    (before after : List (Arrival ℚ)) (reply : Arrival ℚ) (packet : NtpPacket),
    (exchange Aead.checksum (Source.opened 0) (some NtsSession.smallSession) echoInputs).2.2.map
      Prod.fst = some sample ∧
    arrivals echoInputs.batches = before ++ reply :: after ∧
    IsGenuine Aead.checksum ⟨5⟩ inflight reply.bytes packet ∧ 0 ≤ sample.delay := by
  have hsome : (exchange Aead.checksum (Source.opened (0 : ℚ)) (some NtsSession.smallSession)
      echoInputs).2.2.isSome = true := by decide +kernel
  obtain ⟨⟨sample, stratum, rootDistance⟩, hresult⟩ := Option.isSome_iff_exists.mp hsome
  generalize hexchange : exchange Aead.checksum (Source.opened (0 : ℚ))
    (some NtsSession.smallSession) echoInputs = ended at hresult ⊢
  obtain ⟨source', nts', result⟩ := ended
  obtain rfl : result = some (sample, stratum, rootDistance) := hresult
  obtain ⟨inflight, _, _, _, before, reply, after, packet, -, -, -, harrivals, -, hgenuine, -, -, -,
    -, -, -, hdelay, -⟩ := exchange_first_genuine hexchange
  exact ⟨sample, inflight, before, after, reply, packet, rfl, harrivals, hgenuine, hdelay⟩

end RustyTime
