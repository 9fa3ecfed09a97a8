import Mathlib.Algebra.Order.Ring.Rat
import RustyTime.Properties.Filter
import RustyTime.Properties.Ntp
import RustyTime.Wasm.TimeClient

/-!
# One sample a request

A response is turned away and counted, or it answers the request in flight and moves the clock.
Only a usable echo of the nonce consumes the request.

* `process_junk`, `process_usable` — what one response does
* `respond_accepted`, `responses_tracks` — an accepted one is one sample in the register
* `SameButCount.respond`, `responses_junk` — junk leaves nothing but its count
* `accepts_once` — after a request, at most one response is accepted
-/

namespace RustyTime.TimeClient

variable {R : Type} [Field R] [LinearOrder R] (std : StdFloat R)

/-- One call of `process_response`. -/
structure Response (R : Type) where
  bytes : List UInt8
  dateNowMs : R
  perfNowMs : R

def respond (std : StdFloat R) (c : TimeClient R) (r : Response R) : TimeClient R × Bool :=
  c.processResponseInner std r.bytes r.dateNowMs r.perfNowMs

/-- The packet in a response that answers a request with this nonce. -/
def usablePacket (nonce : NtpTimestamp) (bytes : List UInt8) : Option NtpPacket :=
  if bytes.length < headerLen then none
  else
    match NtpPacket.parse bytes with
    | .error _ => none
    | .ok packet => if Usable nonce packet then some packet else none

omit [Field R] [LinearOrder R] in
theorem usablePacket_eq_some {nonce : NtpTimestamp} {bytes : List UInt8} {packet : NtpPacket} :
    usablePacket nonce bytes = some packet ↔
      headerLen ≤ bytes.length ∧ NtpPacket.parse bytes = .ok packet ∧ Usable nonce packet := by
  unfold usablePacket
  split
  · simp
    omega
  · cases hparse : NtpPacket.parse bytes with
    | error e => simp
    | ok parsed =>
      dsimp only
      split
      · simp
        grind
      · simp
        grind

/-! ## One response -/

/-- No request is in flight, or the response does not answer it. -/
theorem process_junk {c : TimeClient R} {r : Response R}
    (h : c.pendingT1Ms = none ∨ usablePacket c.pendingNonce r.bytes = none) :
    c.respond std r = c.reject := by
  unfold respond processResponseInner
  cases hpending : c.pendingT1Ms with
  | none => rfl
  | some t1Ms =>
    have hnone := h.resolve_left (by simp [hpending])
    unfold usablePacket at hnone
    dsimp only
    split
    · rfl
    · next hlong =>
      rw [if_neg hlong] at hnone
      cases hparse : NtpPacket.parse r.bytes with
      | error e => rfl
      | ok packet =>
        rw [hparse] at hnone
        dsimp only at hnone ⊢
        split at hnone
        · cases hnone
        · next hunusable => exact if_pos hunusable

/-- A response that answers the request consumes it; it is accepted where its delay allows. -/
theorem process_usable {c : TimeClient R} {r : Response R} {t1Ms : R} {packet : NtpPacket}
    (hpending : c.pendingT1Ms = some t1Ms)
    (h : usablePacket c.pendingNonce r.bytes = some packet) :
    c.respond std r =
      if (measure packet t1Ms r.dateNowMs).2 < 0 then
        ({ c with pendingT1Ms := none, rejected := c.rejected + 1 }, false)
      else
        (({ c with pendingT1Ms := none } : TimeClient R).accept std packet
          (measure packet t1Ms r.dateNowMs).1 (measure packet t1Ms r.dateNowMs).2 r.perfNowMs,
          true) := by
  obtain ⟨hlong, hparse, husable⟩ := usablePacket_eq_some.mp h
  unfold respond processResponseInner
  rw [hpending]
  dsimp only
  rw [if_neg (by omega), hparse]
  dsimp only
  rw [if_neg (not_not.mpr husable)]
  rfl

/-- **A response is turned away, or it answers the request in flight.** -/
theorem respond_cases (c : TimeClient R) (r : Response R) :
    c.respond std r = c.reject ∨
      (∃ t1Ms packet, c.pendingT1Ms = some t1Ms ∧
        usablePacket c.pendingNonce r.bytes = some packet ∧
          (measure packet t1Ms r.dateNowMs).2 < 0 ∧
            c.respond std r = ({ c with pendingT1Ms := none } : TimeClient R).reject) ∨
      ∃ t1Ms packet, c.pendingT1Ms = some t1Ms ∧
        usablePacket c.pendingNonce r.bytes = some packet ∧
          ¬(measure packet t1Ms r.dateNowMs).2 < 0 ∧
            c.respond std r =
              (({ c with pendingT1Ms := none } : TimeClient R).accept std packet
                (measure packet t1Ms r.dateNowMs).1 (measure packet t1Ms r.dateNowMs).2
                r.perfNowMs, true) := by
  cases hpending : c.pendingT1Ms with
  | none => exact .inl (process_junk std (.inl hpending))
  | some t1Ms =>
    cases hpacket : usablePacket c.pendingNonce r.bytes with
    | none => exact .inl (process_junk std (.inr hpacket))
    | some packet =>
      have hrespond := process_usable std hpending hpacket
      by_cases hdelay : (measure packet t1Ms r.dateNowMs).2 < 0
      · rw [if_pos hdelay] at hrespond
        exact .inr (.inl ⟨t1Ms, packet, rfl, rfl, hdelay, hrespond⟩)
      · rw [if_neg hdelay] at hrespond
        exact .inr (.inr ⟨t1Ms, packet, rfl, rfl, hdelay, hrespond⟩)

/-- No response changes what the next one has to echo. -/
@[simp] theorem pendingNonce_respond (c : TimeClient R) (r : Response R) :
    (c.respond std r).1.pendingNonce = c.pendingNonce := by
  rcases respond_cases std c r with h | ⟨_, _, _, _, _, h⟩ | ⟨_, _, _, _, _, h⟩ <;>
    rw [h] <;> rfl

/-- A response leaves the request in flight, or consumes it. -/
theorem pendingT1Ms_respond (c : TimeClient R) (r : Response R) :
    (c.respond std r).1.pendingT1Ms = c.pendingT1Ms ∨
      (c.respond std r).1.pendingT1Ms = none := by
  rcases respond_cases std c r with h | ⟨_, _, _, _, _, h⟩ | ⟨_, _, _, _, _, h⟩
  · exact .inl (by rw [h]; rfl)
  · exact .inr (by rw [h]; rfl)
  · exact .inr (by rw [h]; rfl)

/-- **A response that is not accepted leaves the clock alone** and is counted. -/
theorem respond_rejected {c : TimeClient R} {r : Response R} (h : (c.respond std r).2 = false) :
    (c.respond std r).1.register = c.register ∧ (c.respond std r).1.vclock = c.vclock ∧
      (c.respond std r).1.rejected = c.rejected + 1 ∧
        (c.respond std r).1.accepted = c.accepted := by
  rcases respond_cases std c r with hcase | ⟨_, _, _, _, _, hcase⟩ |
    ⟨_, _, _, _, _, hcase⟩
  · simp [hcase, reject]
  · simp [hcase, reject]
  · simp [hcase] at h

/-- The sample of an accepted response. -/
def sampleOf (packet : NtpPacket) (t1Ms : R) (r : Response R) : Sample R where
  t := r.perfNowMs / 1e3
  offset := (measure packet t1Ms r.dateNowMs).1
  delay := (measure packet t1Ms r.dateNowMs).2
  dispersion := packet.rootDispersion.toSeconds

/-- What the clock is moved to with a sample new in the register: an offset, and its error. The
sample stands in where the regression has no estimate. -/
def reading (fit : Option (RegressEstimate R)) (s : Sample R) : R × R :=
  match fit with
  | some est => (est.offset, max est.offsetSd (s.delay / 2.0) + browserErrorFloorMs / 1e3)
  | none => (s.offset, s.delay / 2.0 + browserErrorFloorMs / 1e3)

/-- A client that took a sample: that is in the register, once, and the clock reads by it. -/
structure Takes (std : StdFloat R) (c : TimeClient R) (s : Sample R) (c' : TimeClient R) :
    Prop where
  register : c'.register = ((c.register.push s).regress std s.t).1
  vclock : c'.vclock = c.vclock.update s.t (reading ((c.register.push s).regress std s.t).2 s).1
    none (reading ((c.register.push s).regress std s.t).2 s).2
  accepted : c'.accepted = c.accepted + 1
  rejected : c'.rejected = c.rejected
  answered : c'.pendingT1Ms = none

/-- **A response that is accepted is one sample.** -/
theorem respond_accepted {c : TimeClient R} {r : Response R} (h : (c.respond std r).2 = true) :
    ∃ t1Ms packet, c.pendingT1Ms = some t1Ms ∧
      usablePacket c.pendingNonce r.bytes = some packet ∧
        Takes std c (sampleOf packet t1Ms r) (c.respond std r).1 := by
  rcases respond_cases std c r with hcase | ⟨_, _, _, _, _, hcase⟩ |
    ⟨t1Ms, packet, hpending, hpacket, -, hcase⟩
  · simp [hcase, reject] at h
  · simp [hcase, reject] at h
  · refine ⟨t1Ms, packet, hpending, hpacket, ?_⟩
    rw [hcase]
    exact
      { register := rfl
        vclock := by
          unfold accept sampleOf reading
          rfl
        accepted := rfl
        rejected := rfl
        answered := rfl }

/-! ## Several responses -/

/-- The client after responses. -/
def responses (std : StdFloat R) (c : TimeClient R) (rs : List (Response R)) : TimeClient R :=
  rs.foldl (fun c r => (c.respond std r).1) c

/-- Which of them were accepted. -/
def verdicts (std : StdFloat R) (c : TimeClient R) : List (Response R) → List Bool
  | [] => []
  | r :: rs => (c.respond std r).2 :: verdicts std (c.respond std r).1 rs

@[simp] theorem pendingNonce_responses (c : TimeClient R) (rs : List (Response R)) :
    (responses std c rs).pendingNonce = c.pendingNonce := by
  induction rs generalizing c with
  | nil => rfl
  | cons r rs ih => exact (ih _).trans (pendingNonce_respond std c r)

theorem pendingT1Ms_responses (c : TimeClient R) (rs : List (Response R)) :
    (responses std c rs).pendingT1Ms = c.pendingT1Ms ∨ (responses std c rs).pendingT1Ms = none := by
  induction rs generalizing c with
  | nil => exact .inl rfl
  | cons r rs ih =>
    rcases ih (c.respond std r).1 with hsame | hnone
    · rcases pendingT1Ms_respond std c r with hkept | hgone
      · exact .inl (hsame.trans hkept)
      · exact .inr (hsame.trans hgone)
    · exact .inr hnone

/-- Without a request in flight nothing is accepted. -/
theorem verdicts_idle {c : TimeClient R} (h : c.pendingT1Ms = none) (rs : List (Response R)) :
    (verdicts std c rs).count true = 0 := by
  induction rs generalizing c with
  | nil => rfl
  | cons r rs ih =>
    have hreject := process_junk std (r := r) (.inl h)
    have hrest := ih (c := c.reject.1) h
    simpa [verdicts, hreject, reject] using hrest

/-- **A request has at most one reply**, whatever comes. -/
theorem count_verdicts_le (c : TimeClient R) (rs : List (Response R)) :
    (verdicts std c rs).count true ≤ 1 := by
  induction rs generalizing c with
  | nil => simp [verdicts]
  | cons r rs ih =>
    rcases respond_cases std c r with h | ⟨_, _, _, _, _, h⟩ | ⟨_, _, _, _, _, h⟩
    · have hrest := ih c.reject.1
      simpa [verdicts, h, reject] using hrest
    · have hrest := ih ({ c with pendingT1Ms := none } : TimeClient R).reject.1
      simpa [verdicts, h, reject] using hrest
    · -- the request is gone, and with it every later reply
      have hrest := verdicts_idle std
        (c := (c.respond std r).1) (by rw [h]; rfl) rs
      rw [verdicts, List.count_cons, hrest, h]
      simp

/-- **The register gains a sample for each response accepted**, and no other. -/
theorem responses_tracks {c : TimeClient R} {cap : ℕ} {history : List (Sample R)}
    (h : c.register.Tracks cap history) (rs : List (Response R)) :
    ∃ pushed, pushed.length = (verdicts std c rs).count true ∧
      (responses std c rs).register.Tracks cap (history ++ pushed) := by
  induction rs generalizing c history with
  | nil => exact ⟨[], rfl, by rwa [List.append_nil]⟩
  | cons r rs ih =>
    cases hverdict : (c.respond std r).2 with
    | false =>
      have hregister := (respond_rejected std hverdict).1
      obtain ⟨pushed, hlength, htracks⟩ := ih (c := (c.respond std r).1) (hregister ▸ h)
      exact ⟨pushed, by simp [verdicts, hverdict, hlength], htracks⟩
    | true =>
      obtain ⟨t1Ms, packet, -, -, htakes⟩ := respond_accepted std hverdict
      have htracks' : (c.respond std r).1.register.Tracks cap
          (history ++ [sampleOf packet t1Ms r]) := by
        rw [htakes.register]
        exact SampleRegister.regress_tracks (SampleRegister.push_tracks h _) std _
      obtain ⟨pushed, hlength, htracks⟩ := ih htracks'
      refine ⟨sampleOf packet t1Ms r :: pushed, by simp [verdicts, hverdict, hlength], ?_⟩
      rwa [List.append_assoc] at htracks

/-! ## Junk -/

/-- Two clients that differ in how many responses they turned away. -/
def SameButCount (c c' : TimeClient R) : Prop := ∃ n, c' = { c with rejected := n }

/-- They do the same with a response. -/
theorem SameButCount.respond {c c' : TimeClient R} (h : SameButCount c c') (r : Response R) :
    (c'.respond std r).2 = (c.respond std r).2 ∧
      SameButCount (c.respond std r).1 (c'.respond std r).1 := by
  obtain ⟨n, rfl⟩ := h
  by_cases hjunk : c.pendingT1Ms = none ∨ usablePacket c.pendingNonce r.bytes = none
  · rw [process_junk std hjunk, process_junk std (c := { c with rejected := n }) hjunk]
    exact ⟨rfl, _, rfl⟩
  · obtain ⟨hpending, hpacket⟩ := not_or.mp hjunk
    obtain ⟨t1Ms, hpending⟩ := Option.ne_none_iff_exists'.mp hpending
    obtain ⟨packet, hpacket⟩ := Option.ne_none_iff_exists'.mp hpacket
    rw [process_usable std hpending hpacket,
      process_usable std (c := { c with rejected := n }) hpending hpacket]
    split
    · exact ⟨rfl, _, rfl⟩
    · exact ⟨rfl, _, rfl⟩

theorem SameButCount.verdicts {c c' : TimeClient R} (h : SameButCount c c')
    (rs : List (Response R)) : verdicts std c' rs = verdicts std c rs := by
  induction rs generalizing c c' with
  | nil => rfl
  | cons r rs ih =>
    obtain ⟨hverdict, hsame⟩ := h.respond std r
    simp only [TimeClient.verdicts, hverdict, ih hsame]

/-- Junk leaves nothing but its count. -/
theorem responses_junk {c : TimeClient R} {junk : List (Response R)}
    (h : ∀ r ∈ junk, usablePacket c.pendingNonce r.bytes = none) :
    SameButCount c (responses std c junk) := by
  induction junk generalizing c with
  | nil => exact ⟨c.rejected, rfl⟩
  | cons r junk ih =>
    have hreject := process_junk std (.inr (h r List.mem_cons_self))
    obtain ⟨n, hn⟩ := ih (c := c.reject.1) fun r' hr' => h r' (List.mem_cons_of_mem _ hr')
    refine ⟨n, ?_⟩
    rw [responses, List.foldl_cons, hreject]
    exact hn

/-- **Each request yields at most one sample, and forged packets are inert.** After a request and
any responses: at most one is accepted, and that echoes the nonce, is synchronised and usable and
has a delay that can be; it is the one sample that the register gains, and the clock is set by it;
the others leave the clock alone and are counted; and as long as only responses came that do not
answer the request, one that does is accepted. -/
theorem accepts_once (std : StdFloat R) (c : TimeClient R) (dateNowMs : R) (nonce : UInt64) :
    (∀ rs, (verdicts std (c.buildRequestWithNonce dateNowMs nonce).1 rs).count true ≤ 1) ∧
    (∀ rs cap history, c.register.Tracks cap history →
      ∃ pushed, pushed.length ≤ 1 ∧
        pushed.length =
          (verdicts std (c.buildRequestWithNonce dateNowMs nonce).1 rs).count true ∧
        (responses std (c.buildRequestWithNonce dateNowMs nonce).1 rs).register.Tracks cap
          (history ++ pushed)) ∧
    (∀ (s : TimeClient R) r, (respond std s r).2 = true →
      ∃ t1Ms packet, s.pendingT1Ms = some t1Ms ∧
        usablePacket s.pendingNonce r.bytes = some packet ∧
          Takes std s (sampleOf packet t1Ms r) (respond std s r).1) ∧
    (∀ before r,
      (respond std (responses std (c.buildRequestWithNonce dateNowMs nonce).1 before) r).2 = true →
        ∃ packet, headerLen ≤ r.bytes.length ∧ NtpPacket.parse r.bytes = .ok packet ∧
          packet.originTs = ⟨nonce⟩ ∧ packet.mode = .server ∧ packet.stratum ≠ 0 ∧
            packet.stratum ≤ 15 ∧ packet.leap ≠ .unsynchronized ∧
              0 ≤ (measure packet dateNowMs r.dateNowMs).2) ∧
    (∀ (s : TimeClient R) r, (respond std s r).2 = false →
      (respond std s r).1.register = s.register ∧ (respond std s r).1.vclock = s.vclock ∧
        (respond std s r).1.rejected = s.rejected + 1 ∧
          (respond std s r).1.accepted = s.accepted) ∧
    (∀ junk r, (∀ j ∈ junk, usablePacket ⟨nonce⟩ j.bytes = none) →
      ((respond std (responses std (c.buildRequestWithNonce dateNowMs nonce).1 junk) r).2 = true ↔
        ∃ packet, usablePacket ⟨nonce⟩ r.bytes = some packet ∧
          0 ≤ (measure packet dateNowMs r.dateNowMs).2)) ∧
    ∀ before junk after, (∀ j ∈ junk, usablePacket ⟨nonce⟩ j.bytes = none) →
      verdicts std (responses std (c.buildRequestWithNonce dateNowMs nonce).1 (before ++ junk))
          after =
        verdicts std (responses std (c.buildRequestWithNonce dateNowMs nonce).1 before) after := by
  have hnonce : ∀ rs, (responses std (c.buildRequestWithNonce dateNowMs nonce).1 rs).pendingNonce =
      ⟨nonce⟩ := by
    intro rs
    rw [pendingNonce_responses std]
    rfl
  refine ⟨count_verdicts_le std _, ?_, fun s r => respond_accepted std, ?_,
    fun s r => respond_rejected std, ?_, ?_⟩
  · intro rs cap history htracks
    obtain ⟨pushed, hlength, hpushed⟩ := responses_tracks std
      (c := (c.buildRequestWithNonce dateNowMs nonce).1) htracks rs
    exact ⟨pushed, hlength.trans_le (count_verdicts_le std _ rs), hlength, hpushed⟩
  · intro before r haccepted
    rcases respond_cases std
      (responses std (c.buildRequestWithNonce dateNowMs nonce).1 before) r with
      hcase | ⟨_, _, _, _, _, hcase⟩ | ⟨t1Ms, packet, hpending, hpacket, hdelay, -⟩
    · simp [hcase, reject] at haccepted
    · simp [hcase, reject] at haccepted
    · rw [hnonce] at hpacket
      obtain ⟨hlong, hparse, hmode, horigin, hkiss, hstratum, hleap, -, -⟩ :=
        usablePacket_eq_some.mp hpacket
      -- the request in flight is still the last one built
      obtain rfl : t1Ms = dateNowMs := by
        rcases pendingT1Ms_responses std
          (c.buildRequestWithNonce dateNowMs nonce).1 before with hsame | hnone
        · exact Option.some.inj (hpending.symm.trans hsame)
        · simp [hpending] at hnone
      exact ⟨packet, hlong, hparse, horigin, hmode, hkiss, hstratum, hleap, not_lt.mp hdelay⟩
  · intro junk r hjunk
    obtain ⟨hverdict, -⟩ := (responses_junk std
      (c := (c.buildRequestWithNonce dateNowMs nonce).1) hjunk).respond std r
    rw [hverdict]
    cases hpacket : usablePacket ⟨nonce⟩ r.bytes with
    | none =>
      rw [process_junk std (c := (c.buildRequestWithNonce dateNowMs nonce).1) (.inr hpacket)]
      simp [reject]
    | some packet =>
      rw [process_usable std (c := (c.buildRequestWithNonce dateNowMs nonce).1) rfl hpacket]
      split
      · next hdelay => simpa using hdelay
      · next hdelay => simpa using hdelay
  · intro before junk after hjunk
    have hsplit : responses std (c.buildRequestWithNonce dateNowMs nonce).1 (before ++ junk) =
        responses std (responses std (c.buildRequestWithNonce dateNowMs nonce).1 before) junk :=
      List.foldl_append
    rw [hsplit]
    apply SameButCount.verdicts
    apply responses_junk std
    rw [hnonce]
    exact hjunk

/-- A reply of stratum 2 that echoes a nonce. -/
def echo (nonce : UInt64) : List UInt8 :=
  ({ NtpPacket.clientRequest 4 .zero with
    mode := .server
    stratum := 2
    originTs := ⟨nonce⟩
    receiveTs := ⟨0x83AA7E8000000000⟩
    transmitTs := ⟨0x83AA7E8000000000⟩ } : NtpPacket).toBytes

/-- Another's reply, the reply, the reply again: one sample. -/
theorem accepts_once_echo : ∃ sample : Sample ℚ,
    (responses ⟨id, id, fun _ _ => none⟩ (new.buildRequestWithNonce 0 5).1
      [⟨echo 6, 1, 1⟩, ⟨echo 5, 2, 2⟩, ⟨echo 5, 3, 3⟩]).register.window = [sample] := by
  have hverdicts : verdicts (⟨id, id, fun _ _ => none⟩ : StdFloat ℚ)
      ((new : TimeClient ℚ).buildRequestWithNonce 0 5).1
      [⟨echo 6, 1, 1⟩, ⟨echo 5, 2, 2⟩, ⟨echo 5, 3, 3⟩] = [false, true, false] := by
    decide +kernel
  obtain ⟨pushed, -, hlength, htracks⟩ := (accepts_once (⟨id, id, fun _ _ => none⟩ : StdFloat ℚ)
    new 0 5).2.1 [⟨echo 6, 1, 1⟩, ⟨echo 5, 2, 2⟩, ⟨echo 5, 3, 3⟩] 16 []
      (SampleRegister.new_tracks 16)
  rw [hverdicts] at hlength
  obtain ⟨sample, rfl⟩ := List.length_eq_one_iff.mp hlength
  exact ⟨sample, htracks.window⟩

end RustyTime.TimeClient
