import RustyTime.Properties.Amplification

/-!
# NTS from end to end

The client writes a request, the server reads it, and the other way round. Each reads what the
other wrote, byte for byte, and the cookies a session holds stay between the target and twice
the target.

* `requestFields_protected` — what the server finds in a request
* `fields_reply`, `verifyResponse_reply` — what the client finds in a reply
* `exchange_verified` — one request and its reply
-/

namespace RustyTime

open Infra.Bytes

set_option linter.unusedSectionVars false

/-- The system has randomness whenever it is asked. -/
def SystemRandom.Works (random : SystemRandom) : Prop := ∀ i n, (random.fillRandom i n).isSome

/-! ## The request -/

namespace RequestFields

/-- What the loop does with a field of each type. -/
theorem scan_uniqueIdentifier (found : RequestFields) {field : Ef.Field} (rest : List Ef.Field)
    (h : field.fieldType = FieldType.uniqueIdentifier) :
    found.scan (field :: rest) = scan { found with uniqueId := some field.body } rest := by
  rw [scan, h, if_neg (by decide), if_pos rfl]

theorem scan_cookie (found : RequestFields) {field : Ef.Field} (rest : List Ef.Field)
    (h : field.fieldType = FieldType.ntsCookie) :
    found.scan (field :: rest) = scan { found with cookie := some field.body } rest := by
  rw [scan, h, if_pos rfl]

theorem scan_placeholder (found : RequestFields) {field : Ef.Field} (rest : List Ef.Field)
    (h : field.fieldType = FieldType.ntsCookiePlaceholder) :
    found.scan (field :: rest) =
      scan { found with placeholders := found.placeholders + 1 } rest := by
  rw [scan, h, if_neg (by decide), if_neg (by decide), if_pos rfl]

theorem scan_authenticator (found : RequestFields) {field : Ef.Field} (rest : List Ef.Field)
    (h : field.fieldType = FieldType.ntsAuthenticator) :
    found.scan (field :: rest) = { found with authField := some field } := by
  rw [scan, h, if_neg (by decide), if_neg (by decide), if_neg (by decide), if_pos rfl]

/-- The placeholders are counted, one by one. -/
theorem scan_placeholders (found : RequestFields) {fields : List Ef.Field} (rest : List Ef.Field)
    (h : ∀ field ∈ fields, field.fieldType = FieldType.ntsCookiePlaceholder) :
    found.scan (fields ++ rest) =
      scan { found with placeholders := found.placeholders + fields.length } rest := by
  induction fields generalizing found with
  | nil => rfl
  | cons field fields ih =>
    rw [List.cons_append, scan_placeholder _ _ (h field List.mem_cons_self),
      ih _ fun f hf => h f (List.mem_cons_of_mem _ hf), List.length_cons, Nat.add_assoc,
      Nat.add_comm 1]

end RequestFields

/-- The packet a request's authenticator is over. -/
def protectedPart (header uniqueId cookie : List UInt8) (extraCookies : Nat) : List UInt8 :=
  header ++ Ef.writeField FieldType.uniqueIdentifier uniqueId
    ++ Ef.writeField FieldType.ntsCookie cookie
    ++ (List.replicate extraCookies
      (Ef.writeZeroField FieldType.ntsCookiePlaceholder cookie.length)).flatten

theorem length_protectedPart {header uniqueId cookie : List UInt8} (extraCookies : Nat)
    (hheader : header.length = headerLen) (huniqueId : uniqueId.length = uniqueIdLen)
    (hcookie : cookie.length = 100) :
    (protectedPart header uniqueId cookie extraCookies).length = 188 + extraCookies * 104 := by
  unfold protectedPart
  rw [Ef.writeZeroField_eq]
  simp only [List.length_append, Ef.length_writeField, hheader, huniqueId, hcookie,
    List.length_flatten, List.map_replicate, List.sum_replicate_nat, List.length_replicate]
  rfl

/-- An authenticator with a nonce of 16 bytes and whole words of ciphertext has no padding. -/
theorem length_authenticatorBody_of_mod {nonce ciphertext : List UInt8}
    (hnonce : nonce.length = nonceLen) (hciphertext : ciphertext.length % 4 = 0) :
    (Ef.authenticatorBody nonce ciphertext).length = 20 + ciphertext.length := by
  rw [Ef.length_authenticatorBody, hnonce, Ef.nextMultipleOf4_of_mod hciphertext]
  rfl

/-- **What the server finds in a request**: the cookie, the unique identifier, every
placeholder, and the authenticator behind them. -/
theorem requestFields_protected {header uniqueId cookie nonce ciphertext : List UInt8}
    (extraCookies : Nat) (hheader : header.length = headerLen)
    (huniqueId : uniqueId.length = uniqueIdLen) (hcookie : cookie.length = 100)
    (hnonce : nonce.length = nonceLen) (hciphertext : ciphertext.length = tagLen) :
    requestFields (protectedPart header uniqueId cookie extraCookies
        ++ Ef.writeAuthenticator nonce ciphertext) =
      ⟨some cookie, some uniqueId, extraCookies, some
        { fieldType := FieldType.ntsAuthenticator
          body := Ef.authenticatorBody nonce ciphertext
          offset := (protectedPart header uniqueId cookie extraCookies).length }⟩ := by
  have hbody : (Ef.authenticatorBody nonce ciphertext).length = 36 := by
    rw [length_authenticatorBody_of_mod hnonce (by rw [hciphertext]; rfl), hciphertext]
    rfl
  have hzeros : (List.replicate cookie.length (0 : UInt8)).length = 100 := by
    rw [List.length_replicate, hcookie]
  obtain ⟨placeholders, hcount, htypes, hread⟩ :=
    Ef.readFields_replicate extraCookies (headerLen + (4 + uniqueId.length) + (4 + cookie.length))
      (Ef.writeAuthenticator nonce ciphertext)
      (show FieldType.ntsCookiePlaceholder < 256 ^ 2 by decide)
      (show (List.replicate cookie.length (0 : UInt8)).length % 4 = 0 by rw [hzeros])
      (by rw [hzeros]; decide) (by rw [hzeros]; decide)
  have hauth : ∀ offset, Ef.readFields offset (Ef.writeAuthenticator nonce ciphertext) =
      [⟨FieldType.ntsAuthenticator, Ef.authenticatorBody nonce ciphertext, offset⟩] := by
    intro offset
    rw [← List.append_nil (Ef.writeAuthenticator nonce ciphertext), Ef.writeAuthenticator_eq,
      Ef.readFields_writeField_of_mod [] (by decide) (by rw [hbody]) (by rw [hbody]; decide)
        (by rw [hbody]; decide), Ef.readFields_nil]
  rw [length_protectedPart extraCookies hheader huniqueId hcookie]
  unfold requestFields protectedPart
  rw [List.append_assoc, List.append_assoc, List.append_assoc, Ef.fields_append hheader,
    Ef.readFields_writeField_of_mod _ (by decide) (by rw [huniqueId]; rfl)
      (by rw [huniqueId]; decide) (by rw [huniqueId]; decide),
    Ef.readFields_writeField_of_mod _ (by decide) (by rw [hcookie]) (by rw [hcookie]; decide)
      (by rw [hcookie]; decide),
    Ef.writeZeroField_eq, hread, hauth]
  -- the loop, field by field
  rw [RequestFields.scan_uniqueIdentifier _ _ rfl, RequestFields.scan_cookie _ _ rfl,
    RequestFields.scan_placeholders _ _ htypes, RequestFields.scan_authenticator _ _ rfl, hcount,
    huniqueId, hcookie, List.length_replicate]
  show RequestFields.mk _ _ (0 + extraCookies) _ = _
  rw [Nat.zero_add]
  rfl

/-- What stands in front of the authenticator is what it was sealed over. -/
theorem verifyClientAuthenticator_protected {aead : Aead} {c2s : Vector UInt8 32}
    {packet nonce ciphertext plaintext : List UInt8} (hnonce : nonce.length = nonceLen)
    (hciphertext : ciphertext.length = tagLen)
    (h : aead.decrypt c2s [packet, nonce] ciphertext = some plaintext) :
    verifyClientAuthenticator aead (packet ++ Ef.writeAuthenticator nonce ciphertext)
      { fieldType := FieldType.ntsAuthenticator
        body := Ef.authenticatorBody nonce ciphertext
        offset := packet.length } c2s = true := by
  have hparts := Ef.authenticatorParts_body (List.ne_nil_of_length_eq_add_one hnonce)
    (by rw [hnonce]; decide) (by rw [hciphertext]; decide) []
  rw [List.append_nil] at hparts
  unfold verifyClientAuthenticator
  rw [hparts]
  dsimp only
  rw [List.take_left, h]
  rfl

/-! ## The reply -/

/-- **What an NTS reply is made of**, when nothing it needs fails. -/
theorem buildNtsReply_spec {R : Type} {aead : Aead} (hideal : aead.Ideal) {ring : KeyRing}
    {master : MasterKey} (hcurrent : ring.current = some master) (keys : NtsKeys)
    (uniqueId : List UInt8) (placeholders : Nat) (header : NtpPacket) (mode : ResponseMode)
    {clock : ClockReadings R} (hclock : clock.wallParts.isSome) {random : SystemRandom}
    (hrandom : random.Works) :
    ∃ (stamped : NtpPacket) (nonce : Vector UInt8 nonceLen) (nonces : List (List UInt8))
      (plaintext ciphertext : List UInt8),
      nonces.length = min (1 + placeholders) maxReplyCookies ∧
      (∀ n ∈ nonces, n.length = cookieNonceLen) ∧
      Cookie.mintFields aead master keys nonces = .ok plaintext ∧
      aead.encrypt keys.s2c
        [stamped.toBytes ++ Ef.writeField FieldType.uniqueIdentifier (uniqueId.take uniqueIdLen),
          nonce.toList] plaintext = some ciphertext ∧
      buildNtsReply aead ring keys uniqueId placeholders header mode clock random =
        some (stamped.toBytes
          ++ Ef.writeField FieldType.uniqueIdentifier (uniqueId.take uniqueIdLen)
          ++ Ef.writeAuthenticator nonce.toList ciphertext) := by
  obtain ⟨nonceBytes, hnonceBytes⟩ := Option.isSome_iff_exists.mp
    (hrandom 0 (min (1 + placeholders) maxReplyCookies * cookieNonceLen))
  obtain ⟨nonce, hnonce⟩ := Option.isSome_iff_exists.mp (hrandom 1 nonceLen)
  obtain ⟨wall, hwall⟩ := Option.isSome_iff_exists.mp hclock
  obtain ⟨plaintext, hplaintext⟩ := Cookie.mintFields_isOk hideal master keys
    (cookieNonces nonceBytes.toList (min (1 + placeholders) maxReplyCookies))
  obtain ⟨stamped, hstamped⟩ : ∃ stamped, stampTransmit header mode clock = some stamped := by
    unfold stampTransmit
    cases mode with
    | basic =>
      rw [hwall]
      exact ⟨_, rfl⟩
    | interleaved prevTransmit => exact ⟨header, rfl⟩
  obtain ⟨ciphertext, hciphertext⟩ := Option.isSome_iff_exists.mp (hideal.seals keys.s2c
    [stamped.toBytes ++ Ef.writeField FieldType.uniqueIdentifier (uniqueId.take uniqueIdLen),
      nonce.toList] plaintext)
  refine ⟨stamped, nonce, _, plaintext, ciphertext, ?_,
    cookieNonces_length nonceBytes.length_toList, hplaintext, hciphertext, ?_⟩
  · rw [cookieNonces, List.length_map, List.length_range]
  · unfold buildNtsReply
    dsimp only
    rw [hnonceBytes]
    dsimp only
    unfold Cookie.mintFieldsInto
    rw [hcurrent]
    dsimp only
    rw [hplaintext]
    dsimp only
    rw [hstamped]
    dsimp only
    rw [hnonce]
    dsimp only
    rw [hciphertext]

/-- A reply holds the unique identifier and the authenticator, and nothing else. -/
theorem fields_reply {header uniqueId nonce ciphertext : List UInt8}
    (hheader : header.length = headerLen) (hnonce : nonce.length = nonceLen)
    (hmod : uniqueId.length % 4 = 0) (hmin : 12 ≤ uniqueId.length)
    (hfits : 4 + uniqueId.length < 256 ^ 2) (hwords : ciphertext.length % 4 = 0)
    (hshort : 24 + ciphertext.length < 256 ^ 2) :
    Ef.fields (header ++ (Ef.writeField FieldType.uniqueIdentifier uniqueId
        ++ Ef.writeAuthenticator nonce ciphertext)) =
      [⟨FieldType.uniqueIdentifier, uniqueId, headerLen⟩,
        ⟨FieldType.ntsAuthenticator, Ef.authenticatorBody nonce ciphertext,
          headerLen + (4 + uniqueId.length)⟩] := by
  have hbody := length_authenticatorBody_of_mod hnonce hwords
  rw [Ef.fields_append hheader, Ef.readFields_writeField_of_mod _ (by decide) hmod hmin hfits,
    ← List.append_nil (Ef.writeAuthenticator nonce ciphertext), Ef.writeAuthenticator_eq,
    Ef.readFields_writeField_of_mod [] (by decide) (by omega) (by omega) (by omega),
    Ef.readFields_nil]

/-- **What the client finds in a reply**: its own unique identifier, and under the authenticator
what the server sealed. -/
theorem verifyResponse_reply {aead : Aead} {s2c : Vector UInt8 32} {header : List UInt8}
    {uniqueId : Vector UInt8 32} {nonce ciphertext plaintext : List UInt8}
    (hheader : header.length = headerLen) (hnonce : nonce.length = nonceLen)
    (hwords : ciphertext.length % 4 = 0) (hshort : 24 + ciphertext.length < 256 ^ 2)
    (h : aead.decrypt s2c [header ++ Ef.writeField FieldType.uniqueIdentifier uniqueId.toList,
      nonce] ciphertext = some plaintext) :
    Ef.verifyResponse aead (header ++ Ef.writeField FieldType.uniqueIdentifier uniqueId.toList
      ++ Ef.writeAuthenticator nonce ciphertext) s2c uniqueId = .ok (Ef.newCookies plaintext) := by
  have huniqueId : uniqueId.toList.length = 32 := uniqueId.length_toList
  have hfields := fields_reply hheader hnonce (by rw [huniqueId]) (by rw [huniqueId]; decide)
    (by rw [huniqueId]; decide) hwords hshort
  have hfront : (header ++ Ef.writeField FieldType.uniqueIdentifier uniqueId.toList).length =
      headerLen + (4 + uniqueId.toList.length) := by
    rw [List.length_append, hheader, Ef.length_writeField, huniqueId]
    rfl
  have hparts : Ef.authenticatorParts (Ef.authenticatorBody nonce ciphertext ++ []) =
      some (nonce, ciphertext) :=
    Ef.authenticatorParts_body (List.ne_nil_of_length_eq_add_one hnonce)
      (by rw [hnonce]; decide) (by omega) []
  rw [List.append_nil] at hparts
  have hfound : Ef.findFrom uniqueId.toList ⟨false, none, false⟩
      [⟨FieldType.uniqueIdentifier, uniqueId.toList, headerLen⟩,
        ⟨FieldType.ntsAuthenticator, Ef.authenticatorBody nonce ciphertext,
          headerLen + (4 + uniqueId.toList.length)⟩] =
      ⟨true, some ⟨FieldType.ntsAuthenticator, Ef.authenticatorBody nonce ciphertext,
        headerLen + (4 + uniqueId.toList.length)⟩, true⟩ := by
    simp [Ef.findFrom, FieldType.uniqueIdentifier, FieldType.ntsAuthenticator]
  unfold Ef.verifyResponse
  dsimp only
  rw [if_neg (by rw [List.length_append, hfront]; omega), List.append_assoc, hfields, hfound]
  dsimp only
  rw [if_neg (by decide), hparts]
  dsimp only
  rw [← List.append_assoc, ← hfront, List.take_left, h]

/-! ## The session -/

namespace NtsSession

/-- The session's cookies were minted for its own keys, under master keys the ring still has. -/
def HoldsCookiesOf (aead : Aead) (ring : KeyRing) (s : NtsSession) : Prop :=
  ∀ cookie ∈ s.cookies, ∃ mintedIn master nonce, KeyRing.current mintedIn = some master ∧
    master ∈ ring.keys ∧ Cookie.mint aead mintedIn s.keys nonce = .ok cookie

/-- Cookies are banked in order, up to twice the target. -/
theorem foldl_bank (news cookies : List (List UInt8)) :
    news.foldl bank cookies = cookies ++ news.take (16 - cookies.length) := by
  induction news generalizing cookies with
  | nil => simp
  | cons cookie news ih =>
    rw [List.foldl_cons, ih, bank]
    unfold targetCookies
    split
    · next hroom =>
      have hplaces : 16 - cookies.length = 16 - (cookies ++ [cookie]).length + 1 := by
        rw [List.length_append, List.length_singleton]
        omega
      rw [hplaces, List.take_succ_cons]
      simp
    · next hfull =>
      have hplaces : 16 - cookies.length = 0 := by omega
      simp [hplaces]

theorem length_foldl_bank (news cookies : List (List UInt8)) :
    (news.foldl bank cookies).length =
      max cookies.length (min (cookies.length + news.length) 16) := by
  rw [foldl_bank, List.length_append, List.length_take]
  omega

/-- A session with a cookie makes a request of it. -/
theorem protect_cons {aead : Aead} (hideal : aead.Ideal) {random : SystemRandom}
    (hrandom : random.Works) {s : NtsSession} {cookie : List UInt8} {cookies : List (List UInt8)}
    (hcookies : s.cookies = cookie :: cookies) (header : Vector UInt8 48) :
    ∃ (uniqueId : Vector UInt8 32) (nonce : Vector UInt8 16) (ciphertext : List UInt8),
      aead.encrypt s.keys.c2s [protectedPart header.toList uniqueId.toList cookie
        (min (8 - cookies.length) 7), nonce.toList] [] = some ciphertext ∧
      s.protect aead random header =
        ({ s with cookies := cookies, pendingUniqueId := uniqueId },
          .ok (protectedPart header.toList uniqueId.toList cookie (min (8 - cookies.length) 7)
            ++ Ef.writeAuthenticator nonce.toList ciphertext)) := by
  obtain ⟨uniqueId, huniqueId⟩ : ∃ uniqueId : Vector UInt8 32,
      random.fillRandom 0 uniqueIdLen = some uniqueId := Option.isSome_iff_exists.mp (hrandom 0 _)
  obtain ⟨nonce, hnonce⟩ : ∃ nonce : Vector UInt8 16, random.fillRandom 1 nonceLen = some nonce :=
    Option.isSome_iff_exists.mp (hrandom 1 _)
  obtain ⟨ciphertext, hciphertext⟩ := Option.isSome_iff_exists.mp (hideal.seals s.keys.c2s
    [protectedPart header.toList uniqueId.toList cookie (min (8 - cookies.length) 7),
      nonce.toList] [])
  refine ⟨uniqueId, nonce, ciphertext, hciphertext, ?_⟩
  unfold protectedPart at hciphertext ⊢
  unfold protect
  rw [hcookies]
  dsimp only
  rw [huniqueId, hnonce]
  dsimp only
  unfold Ef.protectRequest targetCookies
  dsimp only
  rw [hciphertext]

/-- What the server answers to a protected request: the reply, and what the client has of it. -/
theorem answer_protected {K R : Type} [Field R] [LinearOrder R] [FloorRing R] {aead : Aead}
    (hideal : aead.Ideal) {guard : ServerState K R} (hids : guard.ring.DistinctIds)
    {keys : NtsKeys} {cookie : List UInt8} (hcookie : cookie.length = 100)
    (hredeem : Cookie.redeem aead guard.ring cookie = .ok keys) {newest : MasterKey}
    (hcurrent : guard.ring.current = some newest) {header : Vector UInt8 48}
    {uniqueId : Vector UInt8 32} {nonce : Vector UInt8 16} {extraCookies : Nat}
    {ciphertext : List UInt8}
    (hsealed : aead.encrypt keys.c2s [protectedPart header.toList uniqueId.toList cookie
      extraCookies, nonce.toList] [] = some ciphertext)
    (parsed : NtpPacket) (recvTs : NtpTimestamp) (mode : ResponseMode) {clock : ClockReadings R}
    (hclock : clock.wallParts.isSome) {random : SystemRandom} (hrandom : random.Works) :
    ∃ reply cookies,
      answer aead (protectedPart header.toList uniqueId.toList cookie extraCookies
          ++ Ef.writeAuthenticator nonce.toList ciphertext) parsed recvTs guard mode clock random =
        some reply ∧
      reply.asSlice.length ≤ 1024 ∧
      Ef.verifyResponse aead reply.asSlice keys.s2c uniqueId = .ok cookies ∧
      cookies.length = min (1 + extraCookies) maxReplyCookies ∧
      ∀ fresh ∈ cookies, Cookie.redeem aead guard.ring fresh = .ok keys := by
  have htag : ciphertext.length = tagLen := by
    rw [hideal.length _ _ _ _ hsealed]
    rfl
  have hfound := requestFields_protected extraCookies header.length_toList uniqueId.length_toList
    hcookie nonce.length_toList htag
  have hauth := verifyClientAuthenticator_protected nonce.length_toList htag
    (hideal.opens _ _ _ _ hsealed)
  obtain ⟨stamped, replyNonce, nonces, plaintext, sealed, hcount, hnonces, hmint, hseal, hbuild⟩ :=
    buildNtsReply_spec hideal hcurrent keys uniqueId.toList extraCookies
      (replyHeader guard parsed mode recvTs) mode hclock hrandom
  have htake : uniqueId.toList.take uniqueIdLen = uniqueId.toList :=
    List.take_of_length_le (by rw [uniqueId.length_toList]; exact Nat.le_refl _)
  rw [htake] at hseal hbuild
  -- the cookies in the reply, and how long they make it
  have hplaintext := Cookie.length_mintFields hideal.tagged hnonces hmint
  have hlen := hideal.length _ _ _ _ hseal
  have hcap : nonces.length ≤ 8 := hcount ▸ Nat.min_le_right _ _
  unfold Cookie.fieldLen at hplaintext
  unfold tagLen at hlen
  obtain ⟨hcookies, hfresh⟩ := Cookie.newCookies_mintFields hideal hids
    (KeyRing.mem_of_current hcurrent) 0 hnonces hmint
  refine ⟨.extended (stamped.toBytes
    ++ Ef.writeField FieldType.uniqueIdentifier uniqueId.toList
    ++ Ef.writeAuthenticator replyNonce.toList sealed), Ef.newCookies plaintext, ?_, ?_, ?_, ?_, ?_⟩
  · unfold answer
    dsimp only
    rw [hfound]
    dsimp only
    rw [hredeem]
    dsimp only
    rw [hauth, if_pos rfl, hbuild]
    rfl
  · have hreply := buildNtsReply_length hideal.tagged hbuild
    rw [uniqueId.length_toList, show min uniqueIdLen 32 = 32 from rfl,
      Ef.fieldTotal_of_mod (by decide) (by decide)] at hreply
    show (stamped.toBytes ++ Ef.writeField FieldType.uniqueIdentifier uniqueId.toList
      ++ Ef.writeAuthenticator replyNonce.toList sealed).length ≤ 1024
    rw [hreply]
    unfold headerLen Cookie.fieldLen maxReplyCookies
    omega
  · exact verifyResponse_reply stamped.length_toBytes replyNonce.length_toList (by omega) (by omega)
      (hideal.opens _ _ _ _ hseal)
  · rw [Ef.newCookies_eq, hcookies, hcount]
  · exact hfresh

variable {K R : Type} [DecidableEq K] [Field R] [LinearOrder R] [FloorRing R]

/-- **NTS works from end to end.** A session with cookies of this server makes a request; if that
is admitted to be answered, the session accepts the reply, every cookie in it is as good as the one
spent, and the session is full again but not overfull. Both packets fit the buffers they are
received into. -/
theorem exchange_verified {aead : Aead} (hideal : aead.Ideal) {guard : ServerState K R}
    (hids : guard.ring.DistinctIds) {s : NtsSession} (hholds : s.HoldsCookiesOf aead guard.ring)
    (hne : s.cookies ≠ []) {clientRandom serverRandom : SystemRandom} (hclient : clientRandom.Works)
    (hserver : serverRandom.Works) {clock : ClockReadings R} (hclock : clock.wallParts.isSome)
    (header : Vector UInt8 48) (peer : SocketAddr K) (recvTs : NtpTimestamp) :
    ∃ s' request, s.protect aead clientRandom header = (s', .ok request) ∧
      request.length ≤ 1024 ∧
      (AdmittedToRespond guard request peer clock →
        ∃ reply cookies s'',
          (buildReplyIn aead request peer recvTs guard clock serverRandom).2 = some reply ∧
          reply.bytes.asSlice.length ≤ 1024 ∧
          Ef.verifyResponse aead reply.bytes.asSlice s'.keys.s2c s'.pendingUniqueId = .ok cookies ∧
          cookies.length = min (1 + (requestFields request).placeholders) 8 ∧
          (∀ cookie ∈ cookies, Cookie.redeem aead guard.ring cookie = .ok s.keys) ∧
          s'.verify aead reply.bytes.asSlice = (s'', .ok ()) ∧
          8 ≤ s''.cookies.length ∧ (s.cookies.length ≤ 16 → s''.cookies.length ≤ 16)) := by
  obtain ⟨cookie, cookies, hcookies⟩ := List.exists_cons_of_ne_nil hne
  obtain ⟨mintedIn, master, cookieNonce, hmaster, hmem, hmint⟩ :=
    hholds cookie (hcookies ▸ List.mem_cons_self)
  obtain ⟨master', sealed, hmaster', hsealed, rfl⟩ := Cookie.mint_eq_ok hmint
  obtain rfl := Option.some.inj (hmaster.symm.trans hmaster')
  have hlen := Cookie.length_cookie hideal.tagged cookieNonce.length_toList hsealed
  have hredeem := Cookie.redeem_sealed hideal hids hmem cookieNonce.length_toList hsealed
  obtain ⟨newest, hcurrent⟩ := KeyRing.exists_current hmem
  obtain ⟨uniqueId, nonce, ciphertext, hencrypt, hprotect⟩ :=
    protect_cons hideal hclient hcookies header
  have htag : ciphertext.length = tagLen := by
    rw [hideal.length _ _ _ _ hencrypt]
    rfl
  refine ⟨_, _, hprotect, ?_, ?_⟩
  · rw [List.length_append, length_protectedPart _ header.length_toList uniqueId.length_toList hlen,
      Ef.writeAuthenticator_eq, Ef.length_writeField,
      length_authenticatorBody_of_mod nonce.length_toList (by rw [htag]; rfl), htag,
      Ef.fieldTotal_of_mod (by decide) (by decide)]
    unfold tagLen
    omega
  · intro hadmitted
    obtain ⟨parsed, guard', mode, handle, hring, hbuild⟩ :=
      buildReplyIn_of_admitted hadmitted aead recvTs serverRandom
    rw [← hring] at hids hredeem hcurrent
    obtain ⟨bytes, fresh, hanswer, hshort, hverify, hcount, hfresh⟩ :=
      answer_protected hideal hids hlen hredeem hcurrent hencrypt parsed recvTs mode hclock hserver
    have hfound := requestFields_protected (min (8 - cookies.length) 7) header.length_toList
      uniqueId.length_toList hlen nonce.length_toList htag
    refine ⟨⟨bytes, handle⟩, fresh, { s with
      cookies := fresh.foldl bank cookies, pendingUniqueId := uniqueId }, ?_, hshort, hverify, ?_,
      ?_, ?_, ?_, ?_⟩
    · rw [hbuild, hanswer]
      rfl
    · rw [hfound, hcount]
      rfl
    · rw [← hring]
      exact hfresh
    · unfold verify
      rw [hverify]
    · show 8 ≤ (fresh.foldl bank cookies).length
      rw [length_foldl_bank, hcount]
      unfold maxReplyCookies
      omega
    · intro hfull
      show (fresh.foldl bank cookies).length ≤ 16
      rw [hcookies, List.length_cons] at hfull
      rw [length_foldl_bank, hcount]
      unfold maxReplyCookies
      omega

/-! ### One exchange -/

/-- A session with one cookie of the small server. -/
def smallSession : NtsSession := ⟨sessionKeys, [sessionCookie], .replicate 32 0⟩

def zeroRandom : SystemRandom := ⟨fun _ n => some (.replicate n 0)⟩

/-- The header of a client's request. -/
def clientHeader : Vector UInt8 48 := ⟨plainRequest.toArray, by decide⟩

def smallRequest : List UInt8 :=
  (smallSession.protect Aead.checksum zeroRandom clientHeader).2.toOption.getD []

theorem smallSession_holds : smallSession.HoldsCookiesOf Aead.checksum smallRing := by
  intro cookie hcookie
  obtain rfl := List.mem_singleton.mp hcookie
  exact ⟨smallRing, ⟨1, .replicate 32 7⟩, .replicate 16 3, rfl, List.mem_singleton_self _, rfl⟩

/-- The small server has room for its first client. -/
theorem smallServer_admits {request : List UInt8}
    (hparse : (NtpPacket.parse request).toOption.map NtpPacket.mode = some .client)
    (hlong : headerLen ≤ request.length) :
    ∃ clients : ClientTable ℕ ℚ, smallServer = some ⟨clients, smallRing, 2, .reference⟩ ∧
      AdmittedToRespond (⟨clients, smallRing, 2, .reference⟩ : ServerState ℕ ℚ) request
        ⟨0, 123⟩ ⟨some 0, some (0, 0)⟩ := by
  have hserver : (smallServer.map fun guard => (guard.clients.admitHandle (0 : ℕ) 0).2.1) =
      some .respond := by decide +kernel
  obtain ⟨guard, hguard, hrespond⟩ := Option.map_eq_some_iff.mp hserver
  obtain ⟨clients, hclients, rfl⟩ := Option.map_eq_some_iff.mp hguard
  obtain ⟨parsed, hparsed, hmode⟩ : ∃ parsed, NtpPacket.parse request = .ok parsed ∧
      parsed.mode = .client := by
    cases hresult : NtpPacket.parse request with
    | ok parsed =>
      rw [hresult] at hparse
      exact ⟨parsed, rfl, Option.some.inj hparse⟩
    | error e =>
      rw [hresult] at hparse
      cases hparse
  exact ⟨clients, hguard, parsed, 0, ⟨hlong, hparsed, hmode, rfl⟩, hrespond⟩

theorem exchange_verified_small : ∃ guard s' reply,
    smallSession.protect Aead.checksum zeroRandom clientHeader = (s', .ok smallRequest) ∧
      (buildReplyIn Aead.checksum smallRequest ⟨0, 123⟩ ⟨0xED00000000000000⟩
        (guard : ServerState ℕ ℚ) ⟨some 0, some (0, 0)⟩ zeroRandom).2 = some reply ∧
      ∃ s'', s'.verify Aead.checksum reply.bytes.asSlice = (s'', .ok ()) ∧
        8 ≤ s''.cookies.length := by
  -- the request is a client's, and it is the first this server sees
  obtain ⟨clients, -, hadmitted⟩ := smallServer_admits
    (show (NtpPacket.parse smallRequest).toOption.map NtpPacket.mode = some .client by
      decide +kernel) (by decide +kernel)
  have hids : smallRing.DistinctIds := List.pairwise_singleton _ _
  obtain ⟨s', request, hprotect, -, hexchange⟩ := @exchange_verified ℕ ℚ _ _ _ _ Aead.checksum
    Aead.checksum_ideal ⟨clients, smallRing, 2, .reference⟩ hids smallSession smallSession_holds
    (List.cons_ne_nil _ _) zeroRandom zeroRandom (fun _ _ => rfl) (fun _ _ => rfl)
    ⟨some 0, some (0, 0)⟩ rfl clientHeader ⟨0, 123⟩ ⟨0xED00000000000000⟩
  have hrequest : request = smallRequest := by
    unfold smallRequest
    rw [hprotect]
    rfl
  subst hrequest
  obtain ⟨reply, -, s'', hreply, -, -, -, -, hverify, hfull, -⟩ := hexchange hadmitted
  exact ⟨_, s', reply, hprotect, hreply, s'', hverify, hfull⟩

end NtsSession

end RustyTime
