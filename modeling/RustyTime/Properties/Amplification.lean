import Mathlib.Algebra.Order.Ring.Rat
import Mathlib.Data.Rat.Floor
import RustyTime.Daemon.Server
import RustyTime.Properties.Cookie
import RustyTime.Properties.Ntp
import RustyTime.Properties.Server

/-!
# How long a reply is

A plain reply, a kiss and a NAK are never longer than their request. An NTS reply is sized by how
many placeholders the request holds, not by how long they are, and by the server's own nonce.

* `length_ntsNak`, `buildNtsReply_length` — the length of each shape
* `requestFields_uniqueId` — what the loop collects stands in the request
* `not_amplified_iff` — a reply is no longer than its request, exactly when an NTS request pays for
  the reply it asks for
-/

namespace RustyTime

open Infra.Bytes

set_option linter.unusedSectionVars false

/-! ## The shapes -/

theorem length_kissOfDeath (request : NtpPacket) (recvTs : NtpTimestamp) :
    (kissOfDeath request recvTs).length = headerLen := by
  rw [kissOfDeath, NtpPacket.length_toBytes]

theorem length_ntsNak (request : NtpPacket) (recvTs : NtpTimestamp) (uniqueId : List UInt8) :
    (ntsNak request recvTs uniqueId).length = headerLen + Ef.fieldTotal uniqueId.length := by
  rw [ntsNak, List.length_append, Ef.length_writeField,
    length_copyAt (by rw [length_kissOfDeath]; decide), length_kissOfDeath]

theorem cookieNonces_length {bytes : List UInt8} {count : Nat}
    (h : bytes.length = count * cookieNonceLen) :
    ∀ nonce ∈ cookieNonces bytes count, nonce.length = cookieNonceLen := by
  intro nonce hnonce
  obtain ⟨i, hi, rfl⟩ := List.mem_map.mp hnonce
  have hlt : i < count := List.mem_range.mp hi
  have hroom : (i + 1) * cookieNonceLen ≤ count * cookieNonceLen :=
    Nat.mul_le_mul_right _ hlt
  rw [List.length_take, List.length_drop, h]
  rw [Nat.add_mul, Nat.one_mul] at hroom
  omega

/-- **The length of an NTS reply**: the header, the unique identifier, cut short, and the
authenticator around so many cookies. -/
theorem buildNtsReply_length {R : Type} {aead : Aead} (hlength : aead.Tagged) {ring : KeyRing}
    {keys : NtsKeys} {uniqueId : List UInt8} {placeholders : Nat} {header : NtpPacket}
    {mode : ResponseMode} {clock : ClockReadings R} {random : SystemRandom} {bytes : List UInt8}
    (h : buildNtsReply aead ring keys uniqueId placeholders header mode clock random = some bytes) :
    bytes.length = headerLen + Ef.fieldTotal (min uniqueIdLen uniqueId.length) + 40
      + min (1 + placeholders) maxReplyCookies * Cookie.fieldLen := by
  unfold buildNtsReply at h
  dsimp only at h
  split at h
  · cases h
  · next nonceBytes _ =>
    split at h
    · cases h
    · next plaintext hplaintext =>
      split at h
      · cases h
      · next stamped _ =>
        split at h
        · cases h
        · next nonce _ =>
          split at h
          · cases h
          · next ciphertext hciphertext =>
            obtain rfl := Option.some.inj h
            have hcount := Cookie.length_mintFieldsInto hlength
              (cookieNonces_length (nonceBytes.length_toList)) hplaintext
            have hct := hlength _ _ _ _ hciphertext
            rw [hcount, cookieNonces, List.length_map, List.length_range] at hct
            generalize min (1 + placeholders) maxReplyCookies = want at hct ⊢
            unfold Cookie.fieldLen tagLen at *
            have hbody : (Ef.authenticatorBody nonce.toList ciphertext).length =
                36 + want * 104 := by
              have hwords : nextMultipleOf4 (want * 104 + 16) = want * 104 + 16 :=
                Ef.nextMultipleOf4_of_mod (by omega)
              rw [Ef.length_authenticatorBody, hct, hwords, nonce.length_toList]
              show 4 + 16 + _ = _
              omega
            have htotal : Ef.fieldTotal (36 + want * 104) = 40 + want * 104 := by
              rw [Ef.fieldTotal_of_mod (by omega) (by omega)]
              omega
            rw [List.length_append, List.length_append, NtpPacket.length_toBytes,
              Ef.length_writeField, Ef.writeAuthenticator_eq, Ef.length_writeField, hbody, htotal,
              List.length_take]
            omega

/-! ## What a request holds -/

/-- What the loop has collected comes from the fields it has seen. -/
theorem scan_spec (found : RequestFields) (fields : List Ef.Field) :
    (∀ uniqueId, (found.scan fields).uniqueId = some uniqueId →
      found.uniqueId = some uniqueId ∨ ∃ field ∈ fields, field.body = uniqueId) := by
  induction fields generalizing found with
  | nil => exact fun uniqueId h => .inl h
  | cons field fields ih =>
    intro uniqueId h
    have hlater : ∀ found' : RequestFields, (found'.scan fields).uniqueId = some uniqueId →
        found'.uniqueId = found.uniqueId →
        found.uniqueId = some uniqueId ∨ ∃ f ∈ field :: fields, f.body = uniqueId := by
      intro found' h' hsame
      rcases ih found' uniqueId h' with hbefore | ⟨f, hf, hbody⟩
      · exact .inl (hsame ▸ hbefore)
      · exact .inr ⟨f, List.mem_cons_of_mem _ hf, hbody⟩
    unfold RequestFields.scan at h
    split at h
    · exact hlater _ h rfl
    · split at h
      · -- the unique identifier itself: the last one counts
        rcases ih _ uniqueId h with hhere | ⟨f, hf, hbody⟩
        · exact .inr ⟨field, List.mem_cons_self, Option.some.inj hhere⟩
        · exact .inr ⟨f, List.mem_cons_of_mem _ hf, hbody⟩
      · split at h
        · exact hlater _ h rfl
        · split at h
          · exact .inl h
          · exact hlater _ h rfl

/-- A unique identifier is a field of the request, whole words of it. -/
theorem requestFields_uniqueId {request uniqueId : List UInt8}
    (h : (requestFields request).uniqueId = some uniqueId) :
    12 ≤ uniqueId.length ∧ uniqueId.length % 4 = 0 ∧
      headerLen + 4 + uniqueId.length ≤ request.length := by
  rcases scan_spec _ _ uniqueId h with hnone | ⟨field, hfield, rfl⟩
  · cases hnone
  · obtain ⟨hmin, hmod, hle⟩ := Ef.mem_fieldsFrom hfield
    rw [List.length_drop] at hle
    exact ⟨hmin, hmod, by omega⟩

/-! ## Every reply -/

section

variable {K R : Type} [Field R] [LinearOrder R] [FloorRing R]

/-- The request is long enough for the NTS reply it asks for: the header, its unique identifier up
to 32 bytes, an authenticator with the server's nonce, and the cookies. -/
def PaysForCookies (request : List UInt8) : Prop :=
  ∀ uniqueId, (requestFields request).uniqueId = some uniqueId →
    headerLen + (4 + min uniqueIdLen uniqueId.length) + 40
        + min (1 + (requestFields request).placeholders) maxReplyCookies * Cookie.fieldLen ≤
      request.length

/-- The request is for NTS, and the cookie it spends is one of the server's. -/
def SpendsCookie (aead : Aead) (ring : KeyRing) (request : List UInt8) : Prop :=
  (requestFields request).authField.isSome ∧
    ∃ cookie keys, (requestFields request).cookie = some cookie ∧
      Cookie.redeem aead ring cookie = .ok keys

/-- The replies of `answer` by shape. -/
theorem answer_length {aead : Aead} (hlength : aead.Tagged) {request : List UInt8}
    {parsed : NtpPacket} {recvTs : NtpTimestamp} {guard : ServerState K R} {mode : ResponseMode}
    {clock : ClockReadings R} {random : SystemRandom} {bytes : ReplyBytes}
    (hrequest : headerLen ≤ request.length)
    (h : answer aead request parsed recvTs guard mode clock random = some bytes) :
    bytes.asSlice.length ≤ request.length ↔
      (SpendsCookie aead guard.ring request → PaysForCookies request) := by
  unfold answer at h
  dsimp only at h
  cases hauth : (requestFields request).authField with
  | none =>
    -- plain NTP
    rw [hauth] at h
    obtain ⟨header, -, rfl⟩ := Option.map_eq_some_iff.mp h
    refine iff_of_true ?_ fun hspends => ?_
    · show header.toBytes.length ≤ _
      rw [NtpPacket.length_toBytes]
      exact hrequest
    · rw [SpendsCookie, hauth] at hspends
      exact absurd hspends.1 (by simp)
  | some auth =>
    rw [hauth] at h
    dsimp only at h
    split at h
    · next cookie uniqueId hcookie huniqueId =>
      obtain ⟨hmin, hmod, hle⟩ := requestFields_uniqueId huniqueId
      split at h
      · next e hredeem =>
        -- a NAK echoes a field of the request
        obtain rfl := Option.some.inj h
        refine iff_of_true ?_ fun hspends => ?_
        · show (ntsNak parsed recvTs uniqueId).length ≤ _
          rw [length_ntsNak, Ef.fieldTotal_of_mod hmod hmin]
          omega
        · obtain ⟨-, cookie', keys, hcookie', hok⟩ := hspends
          rw [hcookie] at hcookie'
          obtain rfl := Option.some.inj hcookie'
          rw [hredeem] at hok
          cases hok
      · next keys hredeem =>
        split at h
        · obtain ⟨bytes', hbytes, rfl⟩ := Option.map_eq_some_iff.mp h
          have hspends : SpendsCookie aead guard.ring request :=
            ⟨by rw [hauth]; rfl, cookie, keys, hcookie, hredeem⟩
          have hlen := buildNtsReply_length hlength hbytes
          rw [Ef.fieldTotal_of_mod (by unfold uniqueIdLen; omega)
            (by unfold uniqueIdLen; omega)] at hlen
          show bytes'.length ≤ _ ↔ _
          rw [hlen]
          constructor
          · intro hle' _ uniqueId' huniqueId'
            rw [huniqueId] at huniqueId'
            obtain rfl := Option.some.inj huniqueId'
            exact hle'
          · intro hpays
            exact hpays hspends uniqueId huniqueId
        · cases h
    · cases h

variable [DecidableEq K]

/-- **The server is no amplifier, but for one shape of request**: a reply is no longer than its
request, exactly when an NTS request that is admitted and spends a good cookie is as long as the
reply it asks for. -/
theorem not_amplified_iff {aead : Aead} (hlength : aead.Tagged) {request : List UInt8}
    {peer : SocketAddr K} {recvTs : NtpTimestamp} {guard : ServerState K R}
    {clock : ClockReadings R} {random : SystemRandom} {reply : Reply}
    (h : (buildReplyIn aead request peer recvTs guard clock random).2 = some reply) :
    reply.bytes.asSlice.length ≤ request.length ↔
      ((∃ nowMono, clock.monoS = some nowMono ∧
          (guard.clients.admitHandle (clientKey peer) nowMono).2.1 = .respond) →
        SpendsCookie aead guard.ring request → PaysForCookies request) := by
  rcases buildReplyIn_cases aead request peer recvTs guard clock random with hno | hno |
    ⟨parsed, nowMono, disposition, handle, hreaches, hgate⟩
  · rw [hno] at h
    cases h
  · rw [hno] at h
    cases h
  · obtain ⟨hkiss, hdrop, hrespond⟩ :=
      buildReplyIn_of_reaches hreaches aead peer recvTs random hgate
    cases disposition with
    | kissOfDeath =>
      rw [hkiss rfl] at h
      obtain rfl := Option.some.inj h
      refine iff_of_true ?_ fun hlet => ?_
      · show (kissOfDeath parsed recvTs).length ≤ _
        rw [length_kissOfDeath]
        exact hreaches.length
      · obtain ⟨now, hnow, hadmitted⟩ := hlet
        obtain rfl := Option.some.inj (hreaches.monoS.symm.trans hnow)
        rw [hgate] at hadmitted
        cases hadmitted
    | drop =>
      rw [hdrop rfl] at h
      cases h
    | respond =>
      rw [hrespond rfl] at h
      obtain ⟨bytes, hbytes, rfl⟩ := Option.map_eq_some_iff.mp h
      have hadmitted : ∃ now, clock.monoS = some now ∧
          (guard.clients.admitHandle (clientKey peer) now).2.1 = .respond :=
        ⟨nowMono, hreaches.monoS, by rw [hgate]⟩
      rw [answer_length hlength hreaches.length hbytes]
      constructor
      · intro hpays _
        exact hpays
      · intro hpays
        exact hpays hadmitted

end

/-! ### A request shorter than its reply -/

/-- One master key. -/
def smallRing : KeyRing := (KeyRing.new 3).rotateIn ⟨1, .replicate 32 7⟩

/-- A server with one master key and room for one client. -/
def smallServer : Option (ServerState ℕ ℚ) :=
  (ClientTable.new 1 ⟨0, 1, 0, 0, 0⟩ fun _ => 7).map fun clients =>
    ⟨clients, smallRing, 2, .reference⟩

def sessionKeys : NtsKeys := ⟨.replicate 32 0x11, .replicate 32 0x22⟩

/-- A cookie of the small server. -/
def sessionCookie : List UInt8 :=
  (Cookie.mint Aead.checksum smallRing sessionKeys (.replicate 16 3)).toOption.getD []

/-- A plain request. -/
def plainRequest : List UInt8 := 0x23 :: List.replicate 47 0

/-- An NTS request with one cookie, and seven placeholders with bodies of `size` bytes. -/
def sevenPlaceholders (size : Nat) : List UInt8 :=
  let packet := plainRequest
    ++ Ef.writeField FieldType.uniqueIdentifier (List.replicate 32 9)
    ++ Ef.writeField FieldType.ntsCookie sessionCookie
    ++ (List.replicate 7 (Ef.writeZeroField FieldType.ntsCookiePlaceholder size)).flatten
  let nonce := List.replicate 16 4
  packet ++ Ef.writeAuthenticator nonce
    ((Aead.checksum.encrypt sessionKeys.c2s [packet, nonce] []).getD [])

/-- Placeholders of 16 bytes each, where a cookie's field is 104. -/
def shortPlaceholders : List UInt8 := sevenPlaceholders 12

/-- Placeholders as long as the cookies they ask for. -/
def fullPlaceholders : List UInt8 := sevenPlaceholders 100

/-- What the server answers to a request that comes in alone. -/
def soleReply (request : List UInt8) : Option Reply :=
  smallServer.bind fun guard =>
    (buildReplyIn Aead.checksum request ⟨0, 123⟩ ⟨0xED00000000000000⟩ guard
      ⟨some 0, some (0, 0)⟩ ⟨fun _ n => some (.replicate n 0)⟩).2

/-- The placeholders pay for the cookies to the byte. -/
theorem not_amplified_iff_full : fullPlaceholders.length = 956 ∧ ∃ guard reply,
    (buildReplyIn Aead.checksum fullPlaceholders ⟨0, 123⟩ ⟨0xED00000000000000⟩
      (guard : ServerState ℕ ℚ) ⟨some 0, some (0, 0)⟩ ⟨fun _ n => some (.replicate n 0)⟩).2 =
        some reply ∧
      reply.bytes.asSlice.length = 956 ∧
      (reply.bytes.asSlice.length ≤ fullPlaceholders.length ↔
        ((∃ nowMono, some (0 : ℚ) = some nowMono ∧
            (guard.clients.admitHandle (0 : ℕ) nowMono).2.1 = .respond) →
          SpendsCookie Aead.checksum guard.ring fullPlaceholders →
            PaysForCookies fullPlaceholders)) := by
  have hrun : fullPlaceholders.length = 956 ∧
      (soleReply fullPlaceholders).map (fun reply => reply.bytes.asSlice.length) = some 956 := by
    decide +kernel
  obtain ⟨reply, hreply, hlen⟩ := Option.map_eq_some_iff.mp hrun.2
  obtain ⟨guard, -, h⟩ := Option.bind_eq_some_iff.mp hreply
  exact ⟨hrun.1, guard, reply, h, hlen, not_amplified_iff Aead.checksum_ideal.length h⟩

/-- 340 bytes in, 956 bytes out. -/
theorem soleReply_shortPlaceholders : shortPlaceholders.length = 340 ∧
    (soleReply shortPlaceholders).map (fun reply => reply.bytes.asSlice.length) = some 956 := by
  decide +kernel

/-- Seven short placeholders are answered with eight cookies. -/
theorem not_neverAmplifies : ¬∀ (aead : Aead), aead.Ideal → ∀ (request : List UInt8)
    (peer : SocketAddr ℕ) (recvTs : NtpTimestamp) (guard : ServerState ℕ ℚ)
    (clock : ClockReadings ℚ) (random : SystemRandom) (reply : Reply),
    (buildReplyIn aead request peer recvTs guard clock random).2 = some reply →
      reply.bytes.asSlice.length ≤ request.length := by
  intro h
  obtain ⟨hrequest, hlen⟩ := soleReply_shortPlaceholders
  obtain ⟨reply, hreply, hlong⟩ := Option.map_eq_some_iff.mp hlen
  obtain ⟨guard, -, hbuild⟩ := Option.bind_eq_some_iff.mp hreply
  have hle := h Aead.checksum Aead.checksum_ideal _ _ _ guard _ _ reply hbuild
  rw [hlong, hrequest] at hle
  omega

end RustyTime
