import RustyTime.Properties.NtsSession
import RustyTime.Properties.Trailer

/-!
# The unique identifier in a reply

The server takes the last unique identifier in front of the authenticator. Its NAK echoes it as
it is; its reply echoes the first 32 bytes of it.

* `requestFields_lastBody` — which identifier the server takes
* `answer_nak`, `answer_nts` — the two replies that echo it
* `echoes_uniqueId_iff` — the identifier comes back whole, except in a reply to a longer one
-/

namespace RustyTime

open Infra.Bytes

set_option linter.unusedSectionVars false

/-! ## In the request -/

/-- The body of the last field of a type before the authenticator. -/
def lastBody (fieldType : Nat) (fields : List Ef.Field) : Option (List UInt8) :=
  (((fields.takeWhile fun field => field.fieldType ≠ FieldType.ntsAuthenticator).filter
    fun field => field.fieldType = fieldType).getLast?).map Ef.Field.body

theorem lastBody_authenticator (fieldType : Nat) {field : Ef.Field} (rest : List Ef.Field)
    (h : field.fieldType = FieldType.ntsAuthenticator) :
    lastBody fieldType (field :: rest) = none := by
  simp [lastBody, h]

theorem lastBody_other {fieldType : Nat} {field : Ef.Field} (rest : List Ef.Field)
    (hauth : field.fieldType ≠ FieldType.ntsAuthenticator) (h : field.fieldType ≠ fieldType) :
    lastBody fieldType (field :: rest) = lastBody fieldType rest := by
  simp [lastBody, hauth, h]

theorem lastBody_same {fieldType : Nat} {field : Ef.Field} (rest : List Ef.Field)
    (hauth : field.fieldType ≠ FieldType.ntsAuthenticator) (h : field.fieldType = fieldType) :
    lastBody fieldType (field :: rest) = some ((lastBody fieldType rest).getD field.body) := by
  subst h
  unfold lastBody
  rw [List.takeWhile_cons_of_pos (by simpa using hauth), List.filter_cons_of_pos (by simp),
    List.getLast?_cons]
  cases (List.filter _ (rest.takeWhile _)).getLast? <;> rfl

/-- The loop keeps the last identifier it meets, or the one it came with. -/
theorem RequestFields.scan_uniqueId (found : RequestFields) (fields : List Ef.Field) :
    (found.scan fields).uniqueId =
      (lastBody FieldType.uniqueIdentifier fields).or found.uniqueId := by
  induction fields generalizing found with
  | nil => rfl
  | cons field rest ih =>
    by_cases hauth : field.fieldType = FieldType.ntsAuthenticator
    · rw [scan_authenticator found rest hauth, lastBody_authenticator _ rest hauth]
      rfl
    · by_cases hid : field.fieldType = FieldType.uniqueIdentifier
      · rw [scan_uniqueIdentifier found rest hid, ih, lastBody_same rest hauth hid]
        cases lastBody FieldType.uniqueIdentifier rest <;> rfl
      · rw [lastBody_other rest hauth hid]
        by_cases hcookie : field.fieldType = FieldType.ntsCookie
        · rw [scan_cookie found rest hcookie, ih]
        · by_cases hplaceholder : field.fieldType = FieldType.ntsCookiePlaceholder
          · rw [scan_placeholder found rest hplaceholder, ih]
          · rw [scan, if_neg hcookie, if_neg hid, if_neg hplaceholder, if_neg hauth, ih]

theorem requestFields_lastBody (request : List UInt8) :
    (requestFields request).uniqueId =
      lastBody FieldType.uniqueIdentifier (Ef.fields request) := by
  unfold requestFields
  rw [RequestFields.scan_uniqueId]
  exact Option.or_none

/-- What every field of a packet is in length: whole words, and a total of 16 bits. -/
theorem lastBody_length {fieldType : Nat} {packet body : List UInt8}
    (h : lastBody fieldType (Ef.fields packet) = some body) :
    12 ≤ body.length ∧ body.length % 4 = 0 ∧ 4 + body.length < 256 ^ 2 := by
  obtain ⟨field, hlast, rfl⟩ := Option.map_eq_some_iff.mp h
  have hmem := (List.takeWhile_sublist _).subset
    (List.mem_of_mem_filter (List.mem_of_getLast? hlast))
  obtain ⟨-, hfits, hwords, hmin⟩ := Ef.wellFormed_of_mem_fields hmem
  simp only [ExtensionField.total] at hfits hwords hmin
  omega

/-! ## In the reply -/

/-- The bodies of the unique identifiers in a packet. -/
def uniqueIdsOf (packet : List UInt8) : List (List UInt8) :=
  ((Ef.fields packet).filter fun field => field.fieldType = FieldType.uniqueIdentifier).map
    Ef.Field.body

/-- A NAK holds the identifier it was given. -/
theorem uniqueIdsOf_ntsNak (parsed : NtpPacket) (recvTs : NtpTimestamp) {uniqueId : List UInt8}
    (hmin : 12 ≤ uniqueId.length) (hmod : uniqueId.length % 4 = 0)
    (hfits : 4 + uniqueId.length < 256 ^ 2) :
    uniqueIdsOf (ntsNak parsed recvTs uniqueId) = [uniqueId] := by
  have hheader : (copyAt (kissOfDeath parsed recvTs) 12 [0x4E, 0x54, 0x53, 0x4E]).length =
      headerLen := by
    rw [length_copyAt (by rw [length_kissOfDeath]; decide), length_kissOfDeath]
  have hfields : Ef.fields (ntsNak parsed recvTs uniqueId) =
      [⟨FieldType.uniqueIdentifier, uniqueId, headerLen⟩] := by
    rw [ntsNak, Ef.fields_append hheader,
      ← List.append_nil (Ef.writeField FieldType.uniqueIdentifier uniqueId),
      Ef.readFields_writeField_of_mod [] (by decide) hmod hmin hfits, Ef.readFields_nil]
  simp [uniqueIdsOf, hfields]

/-- A reply holds the first 32 bytes of the identifier it was given. -/
theorem uniqueIdsOf_reply {header uniqueId nonce ciphertext : List UInt8}
    (hheader : header.length = headerLen) (hnonce : nonce.length = nonceLen)
    (hmin : 12 ≤ uniqueId.length) (hmod : uniqueId.length % 4 = 0)
    (hwords : ciphertext.length % 4 = 0) (hshort : 24 + ciphertext.length < 256 ^ 2) :
    uniqueIdsOf (header
        ++ Ef.writeField FieldType.uniqueIdentifier (uniqueId.take uniqueIdLen)
        ++ Ef.writeAuthenticator nonce ciphertext) = [uniqueId.take uniqueIdLen] := by
  have hlen : (uniqueId.take uniqueIdLen).length = min 32 uniqueId.length := List.length_take
  have hfields := fields_reply hheader hnonce (show (uniqueId.take uniqueIdLen).length % 4 = 0 by
    omega) (by omega) (by omega) hwords hshort
  rw [List.append_assoc, uniqueIdsOf, hfields]
  simp [FieldType.ntsAuthenticator, FieldType.uniqueIdentifier]

/-- The first 32 bytes are the identifier where it has no more. -/
theorem take_uniqueId_iff (uniqueId : List UInt8) :
    [uniqueId.take uniqueIdLen] = [uniqueId] ↔ uniqueId.length ≤ uniqueIdLen := by
  rw [List.cons_eq_cons]
  simp [List.take_eq_self_iff]

/-! ## The two answers -/

variable {K R : Type} [Field R] [LinearOrder R] [FloorRing R] {aead : Aead} {request : List UInt8}
  {guard : ServerState K R} {cookie uniqueId : List UInt8} {auth : Ef.Field}

/-- An NTS request: a cookie and a unique identifier, and an authenticator behind them. -/
structure IsNts (request cookie uniqueId : List UInt8) (auth : Ef.Field) : Prop where
  cookie : (requestFields request).cookie = some cookie
  uniqueId : lastBody FieldType.uniqueIdentifier (Ef.fields request) = some uniqueId
  authField : (requestFields request).authField = some auth

/-- A cookie that does not redeem is answered with a NAK. -/
theorem answer_nak (h : IsNts request cookie uniqueId auth) {e : CookieError}
    (hredeem : Cookie.redeem aead guard.ring cookie = .error e) (parsed : NtpPacket)
    (recvTs : NtpTimestamp) (mode : ResponseMode) (clock : ClockReadings R)
    (random : SystemRandom) :
    answer aead request parsed recvTs guard mode clock random =
      some (.extended (ntsNak parsed recvTs uniqueId)) := by
  have huniqueId := (requestFields_lastBody request).trans h.uniqueId
  unfold answer
  dsimp only
  rw [h.authField, h.cookie, huniqueId]
  dsimp only
  rw [hredeem]

/-- A cookie that does, under an authenticator that verifies, is answered with a reply. -/
theorem answer_nts (h : IsNts request cookie uniqueId auth) {keys : NtsKeys}
    (hredeem : Cookie.redeem aead guard.ring cookie = .ok keys)
    (hverify : verifyClientAuthenticator aead request auth keys.c2s = true) (parsed : NtpPacket)
    (recvTs : NtpTimestamp) (mode : ResponseMode) (clock : ClockReadings R)
    (random : SystemRandom) :
    answer aead request parsed recvTs guard mode clock random =
      (buildNtsReply aead guard.ring keys uniqueId (requestFields request).placeholders
        (replyHeader guard parsed mode recvTs) mode clock random).map .extended := by
  have huniqueId := (requestFields_lastBody request).trans h.uniqueId
  unfold answer
  dsimp only
  rw [h.authField, h.cookie, huniqueId]
  dsimp only
  rw [hredeem]
  dsimp only
  rw [if_pos hverify]

/-- A ring that redeems a cookie has a key to mint under. -/
theorem exists_current_of_redeem {ring : KeyRing} {keys : NtsKeys}
    (h : Cookie.redeem aead ring cookie = .ok keys) : ∃ newest, ring.current = some newest := by
  unfold Cookie.redeem at h
  dsimp only at h
  split at h
  · cases h
  · split at h
    · cases h
    · next master hbyId => exact KeyRing.exists_current (List.mem_of_find?_eq_some hbyId)

omit [Field R] [LinearOrder R] [FloorRing R] in
/-- **What a reply echoes**: the first 32 bytes of the identifier. -/
theorem buildNtsReply_echoes (hideal : aead.Ideal) {ring : KeyRing} {newest : MasterKey}
    (hcurrent : ring.current = some newest) (keys : NtsKeys) (hmin : 12 ≤ uniqueId.length)
    (hmod : uniqueId.length % 4 = 0) (placeholders : Nat) (header : NtpPacket)
    (mode : ResponseMode) {clock : ClockReadings R} (hclock : clock.wallParts.isSome)
    {random : SystemRandom} (hrandom : random.Works) :
    ∃ bytes, buildNtsReply aead ring keys uniqueId placeholders header mode clock random =
        some bytes ∧
      uniqueIdsOf bytes = [uniqueId.take uniqueIdLen] := by
  obtain ⟨stamped, nonce, nonces, plaintext, ciphertext, hcount, hnonces, hmint, hseal, hbuild⟩ :=
    buildNtsReply_spec hideal hcurrent keys uniqueId placeholders header mode hclock hrandom
  -- at most eight cookies under the authenticator
  have hcap : nonces.length ≤ 8 := hcount ▸ Nat.min_le_right _ _
  have hplaintext := Cookie.length_mintFields hideal.tagged hnonces hmint
  have hlen := hideal.length _ _ _ _ hseal
  unfold Cookie.fieldLen at hplaintext
  unfold tagLen at hlen
  exact ⟨_, hbuild, uniqueIdsOf_reply stamped.length_toBytes nonce.length_toList hmin hmod
    (by omega) (by omega)⟩

variable [DecidableEq K]

/-- **When the unique identifier comes back whole.** The reply to an admitted NTS request holds
exactly the identifier of the request if and only if that has no more than 32 bytes; a NAK
always does. -/
theorem echoes_uniqueId_iff (hideal : aead.Ideal) {peer : SocketAddr K}
    {clock : ClockReadings R} (hadmitted : AdmittedToRespond guard request peer clock)
    (hclock : clock.wallParts.isSome) {random : SystemRandom} (hrandom : random.Works)
    (recvTs : NtpTimestamp) (h : IsNts request cookie uniqueId auth) :
    (∀ keys, Cookie.redeem aead guard.ring cookie = .ok keys →
      verifyClientAuthenticator aead request auth keys.c2s = true →
        ∃ reply, (buildReplyIn aead request peer recvTs guard clock random).2 = some reply ∧
          (uniqueIdsOf reply.bytes.asSlice = [uniqueId] ↔ uniqueId.length ≤ 32)) ∧
      ∀ e, Cookie.redeem aead guard.ring cookie = .error e →
        ∃ reply, (buildReplyIn aead request peer recvTs guard clock random).2 = some reply ∧
          uniqueIdsOf reply.bytes.asSlice = [uniqueId] := by
  obtain ⟨parsed, guard', mode, handle, hring, hbuild⟩ :=
    buildReplyIn_of_admitted hadmitted aead recvTs random
  obtain ⟨hmin, hmod, hfits⟩ := lastBody_length h.uniqueId
  constructor
  · intro keys hredeem hverify
    rw [← hring] at hredeem
    obtain ⟨newest, hcurrent⟩ := exists_current_of_redeem hredeem
    obtain ⟨bytes, hbytes, hechoes⟩ := buildNtsReply_echoes hideal hcurrent keys hmin hmod
      (requestFields request).placeholders (replyHeader guard' parsed mode recvTs) mode hclock
      hrandom
    refine ⟨⟨.extended bytes, handle⟩, ?_, ?_⟩
    · rw [hbuild, answer_nts h hredeem hverify, hbytes]
      rfl
    · show uniqueIdsOf bytes = [uniqueId] ↔ _
      rw [hechoes]
      exact take_uniqueId_iff uniqueId
  · intro e hredeem
    rw [← hring] at hredeem
    refine ⟨⟨.extended (ntsNak parsed recvTs uniqueId), handle⟩, ?_, ?_⟩
    · rw [hbuild, answer_nak h hredeem]
      rfl
    · exact uniqueIdsOf_ntsNak parsed recvTs hmin hmod hfits

/-! ### Two requests -/

/-- A request to the small server with a unique identifier of any length. -/
def idRequest (uniqueId : List UInt8) : List UInt8 :=
  let packet := plainRequest
    ++ Ef.writeField FieldType.uniqueIdentifier uniqueId
    ++ Ef.writeField FieldType.ntsCookie sessionCookie
  let nonce := List.replicate 16 4
  packet ++ Ef.writeAuthenticator nonce
    ((Aead.checksum.encrypt sessionKeys.c2s [packet, nonce] []).getD [])

theorem redeem_sessionCookie : Cookie.redeem Aead.checksum smallRing sessionCookie =
    .ok sessionKeys := by
  have hids : smallRing.DistinctIds := List.pairwise_singleton _ _
  have hmem : (⟨1, .replicate 32 7⟩ : MasterKey) ∈ smallRing.keys := List.mem_singleton_self _
  exact Cookie.redeem_sealed Aead.checksum_ideal hids hmem
    (Vector.replicate 16 (3 : UInt8)).length_toList rfl

/-- 32 bytes come back. -/
theorem echoes_uniqueId_iff_32 : ∃ (guard : ServerState ℕ ℚ) (reply : Reply),
    (buildReplyIn Aead.checksum (idRequest (List.replicate 32 9)) ⟨0, 123⟩ ⟨0xED00000000000000⟩
      guard ⟨some 0, some (0, 0)⟩ NtsSession.zeroRandom).2 = some reply ∧
        uniqueIdsOf reply.bytes.asSlice = [List.replicate 32 9] := by
  obtain ⟨clients, -, hadmitted⟩ := NtsSession.smallServer_admits
    (show (NtpPacket.parse (idRequest (List.replicate 32 9))).toOption.map NtpPacket.mode =
      some .client by decide +kernel) (by decide +kernel)
  have hverify : ((requestFields (idRequest (List.replicate 32 9))).authField.map fun auth =>
      verifyClientAuthenticator Aead.checksum (idRequest (List.replicate 32 9)) auth
        sessionKeys.c2s) = some true := by decide +kernel
  obtain ⟨auth, hauth, hverified⟩ := Option.map_eq_some_iff.mp hverify
  have hnts : IsNts (idRequest (List.replicate 32 9)) sessionCookie (List.replicate 32 9) auth :=
    ⟨by decide +kernel, by decide +kernel, hauth⟩
  have hrandom : NtsSession.zeroRandom.Works := fun _ _ => rfl
  obtain ⟨reply, hreply, hiff⟩ := (echoes_uniqueId_iff Aead.checksum_ideal hadmitted rfl hrandom
    ⟨0xED00000000000000⟩ hnts).1 sessionKeys redeem_sessionCookie hverified
  exact ⟨_, reply, hreply, hiff.mpr (by decide)⟩

/-- 36 bytes do not. -/
theorem not_echoesUniqueId : ¬∀ (aead : Aead), aead.Ideal → ∀ (request : List UInt8)
    (peer : SocketAddr ℕ) (recvTs : NtpTimestamp) (guard : ServerState ℕ ℚ)
    (clock : ClockReadings ℚ) (random : SystemRandom) (cookie uniqueId : List UInt8)
    (auth : Ef.Field) (keys : NtsKeys), AdmittedToRespond guard request peer clock →
    clock.wallParts.isSome → random.Works → IsNts request cookie uniqueId auth →
    Cookie.redeem aead guard.ring cookie = .ok keys →
    verifyClientAuthenticator aead request auth keys.c2s = true →
      ∃ reply, (buildReplyIn aead request peer recvTs guard clock random).2 = some reply ∧
        uniqueIdsOf reply.bytes.asSlice = [uniqueId] := by
  intro h
  obtain ⟨clients, hguard, hadmitted⟩ := NtsSession.smallServer_admits
    (show (NtpPacket.parse (idRequest (List.replicate 36 9))).toOption.map NtpPacket.mode =
      some .client by decide +kernel) (by decide +kernel)
  have hverify : ((requestFields (idRequest (List.replicate 36 9))).authField.map fun auth =>
      verifyClientAuthenticator Aead.checksum (idRequest (List.replicate 36 9)) auth
        sessionKeys.c2s) = some true := by decide +kernel
  obtain ⟨auth, hauth, hverified⟩ := Option.map_eq_some_iff.mp hverify
  obtain ⟨reply, hreply, hechoes⟩ := h Aead.checksum Aead.checksum_ideal _ _ ⟨0xED00000000000000⟩
    _ _ ⟨fun _ n => some (.replicate n 0)⟩ sessionCookie (List.replicate 36 9) auth sessionKeys
    hadmitted rfl (fun _ _ => rfl) ⟨by decide +kernel, by decide +kernel, hauth⟩
    redeem_sessionCookie hverified
  -- what the server really answers
  have hsole : (soleReply (idRequest (List.replicate 36 9))).map
      (fun reply => uniqueIdsOf reply.bytes.asSlice) = some [List.replicate 32 9] := by
    decide +kernel
  unfold soleReply at hsole
  rw [hguard, Option.bind_some, hreply, Option.map_some, hechoes] at hsole
  exact absurd hsole (by decide)

end RustyTime
