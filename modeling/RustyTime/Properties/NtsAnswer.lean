import RustyTime.Properties.Exchange
import RustyTime.Properties.UniqueId

/-!
# What a client makes of the server's answer

A session's request, and the server's answer to it as the client's receive loop sees it.

* `reply_genuine` — while the cookie redeems, the answer is taken, and its cookies are sealed under
  the newest master key
* `reply_nak` — when it does not, the answer is a NAK
* `kiss_junk` — a kiss from the limiter is passed over
-/

namespace RustyTime

open Infra.Bytes

set_option linter.unusedSectionVars false

variable {aead : Aead}

/-! ## Cookies -/

namespace Cookie

/-- A cookie for a session's keys, sealed under a master key. -/
def SealedUnder (aead : Aead) (master : MasterKey) (keys : NtsKeys) (cookie : List UInt8) : Prop :=
  ∃ nonce sealed : List UInt8, nonce.length = cookieNonceLen ∧
    aead.encrypt master.key [header master nonce] (payload keys) = some sealed ∧
      cookie = header master nonce ++ sealed

variable {master : MasterKey} {keys : NtsKeys} {cookie : List UInt8}

theorem SealedUnder.length (hideal : aead.Ideal) (h : SealedUnder aead master keys cookie) :
    cookie.length = 100 := by
  obtain ⟨nonce, sealed, hnonce, hsealed, rfl⟩ := h
  exact length_cookie hideal.tagged hnonce hsealed

theorem SealedUnder.redeem (hideal : aead.Ideal) {ring : KeyRing} (hids : ring.DistinctIds)
    (hmem : master ∈ ring.keys) (h : SealedUnder aead master keys cookie) :
    Cookie.redeem aead ring cookie = .ok keys := by
  obtain ⟨nonce, sealed, hnonce, hsealed, rfl⟩ := h
  exact redeem_sealed hideal hids hmem hnonce hsealed

/-- Under a key whose id the ring does not know, it is worth nothing. -/
theorem SealedUnder.redeem_unknown (hideal : aead.Ideal) {ring : KeyRing}
    (hid : master.id ∉ ring.keyIds) (h : SealedUnder aead master keys cookie) :
    ∃ e, Cookie.redeem aead ring cookie = .error e := by
  obtain ⟨nonce, sealed, hnonce, hsealed, rfl⟩ := h
  refine redeem_unnamed hnonce (length_sealed hideal.tagged hsealed) ?_
  intro key hkey
  have hsame : key.id = master.id := by simpa using List.find?_some hkey
  exact absurd (hsame ▸ List.mem_map_of_mem (List.mem_of_find?_eq_some hkey)) hid

theorem sealedUnder_mint {ring : KeyRing} (hcurrent : ring.current = some master)
    {nonce : Vector UInt8 16} (h : mint aead ring keys nonce = .ok cookie) :
    SealedUnder aead master keys cookie := by
  obtain ⟨master', sealed, hmaster, hsealed, rfl⟩ := mint_eq_ok h
  obtain rfl := Option.some.inj (hcurrent.symm.trans hmaster)
  exact ⟨nonce.toList, sealed, nonce.length_toList, hsealed, rfl⟩

/-- What the client reads out of the minted fields was sealed under the key they were minted
under. -/
theorem sealedUnder_cookiesOf (hideal : aead.Ideal) {nonces : List (List UInt8)}
    {plaintext : List UInt8} (offset : Nat)
    (hnonces : ∀ nonce ∈ nonces, nonce.length = cookieNonceLen)
    (h : mintFields aead master keys nonces = .ok plaintext) :
    ∀ cookie ∈ Ef.cookiesOf (Ef.readFields offset plaintext),
      SealedUnder aead master keys cookie := by
  induction nonces generalizing offset plaintext with
  | nil =>
    cases h
    intro cookie hcookie
    cases hcookie
  | cons nonce nonces ih =>
    obtain ⟨sealed, rest, hsealed, hrest, rfl⟩ := mintFields_cons h
    have hnonce := hnonces nonce List.mem_cons_self
    have hcookie := length_cookie hideal.tagged hnonce hsealed
    rw [Ef.readFields_writeField_of_mod rest (by decide) (by rw [hcookie]) (by rw [hcookie]; decide)
      (by rw [hcookie]; decide), Ef.cookiesOf_cons_cookie rfl]
    intro cookie hmem
    rcases List.mem_cons.mp hmem with rfl | hlater
    · exact ⟨nonce, sealed, hnonce, hsealed, rfl⟩
    · exact ih _ (fun n hn => hnonces n (List.mem_cons_of_mem _ hn)) hrest cookie hlater

end Cookie

/-! ## The request -/

/-- A string of so many bytes, byte by byte. -/
theorem toList_ofFn_getD {bs : List UInt8} {n : Nat} (h : bs.length = n) :
    (Vector.ofFn fun i : Fin n => bs.getD i 0).toList = bs := by
  apply List.ext_getElem
  · rw [Vector.length_toList, h]
  · intro i hi hi'
    have hget : (Vector.ofFn fun i : Fin n => bs.getD i 0).toList[i] = bs.getD i 0 := by simp
    rw [hget, List.getD_eq_getElem?_getD, List.getElem?_eq_getElem hi']
    rfl

theorem ExchangeInputs.toList_header {R : Type} (inp : ExchangeInputs R) :
    inp.header.toList = (NtpPacket.clientRequest 4 inp.nonce).toBytes := by
  unfold ExchangeInputs.header
  exact toList_ofFn_getD (NtpPacket.length_toBytes _)

namespace NtsSession

/-- How many placeholders a session in flight has sent. -/
def extraCookies (s : NtsSession) : Nat := min (8 - s.cookies.length) 7

/-- The request of a session in flight, with the cookie it spent. -/
def IsRequest (aead : Aead) (s : NtsSession) (nonce : NtpTimestamp) (cookie request : List UInt8) :
    Prop :=
  ∃ (authNonce : Vector UInt8 16) (ciphertext : List UInt8),
    aead.encrypt s.keys.c2s [protectedPart (NtpPacket.clientRequest 4 nonce).toBytes
      s.pendingUniqueId.toList cookie s.extraCookies, authNonce.toList] [] = some ciphertext ∧
    request = protectedPart (NtpPacket.clientRequest 4 nonce).toBytes s.pendingUniqueId.toList
      cookie s.extraCookies ++ Ef.writeAuthenticator authNonce.toList ciphertext

/-- A session with a cookie asks with it. -/
theorem protect_isRequest (hideal : aead.Ideal) {s : NtsSession} {cookie : List UInt8}
    {cookies : List (List UInt8)} (hcookies : s.cookies = cookie :: cookies) {R : Type}
    {random : SystemRandom} (hrandom : random.Works) (inp : ExchangeInputs R) :
    ∃ s' request, s.protect aead random inp.header = (s', .ok request) ∧ s'.keys = s.keys ∧
      s'.cookies = cookies ∧ s'.IsRequest aead inp.nonce cookie request := by
  obtain ⟨uniqueId, nonce, ciphertext, hencrypt, hprotect⟩ :=
    protect_cons hideal hrandom hcookies inp.header
  have hextra : ({ s with cookies := cookies, pendingUniqueId := uniqueId } :
      NtsSession).extraCookies = min (8 - cookies.length) 7 := rfl
  rw [← hextra, inp.toList_header] at hencrypt hprotect
  exact ⟨_, _, hprotect, rfl, rfl, nonce, ciphertext, hencrypt, rfl⟩

variable {s : NtsSession} {nonce : NtpTimestamp} {cookie request : List UInt8}

/-- What the server finds in it: the packet of the header, the cookie, the identifier, the
placeholders, and an authenticator that verifies. -/
theorem protected_spec (hideal : aead.Ideal) {header uniqueId ciphertext request : List UInt8}
    {extraCookies : Nat} {authNonce : Vector UInt8 16} {key : Vector UInt8 32}
    (hheader : header.length = headerLen) (hid : uniqueId.length = uniqueIdLen)
    (hcookie : cookie.length = 100)
    (hencrypt : aead.encrypt key [protectedPart header uniqueId cookie extraCookies,
      authNonce.toList] [] = some ciphertext)
    (hrequest : request = protectedPart header uniqueId cookie extraCookies ++
      Ef.writeAuthenticator authNonce.toList ciphertext) :
    NtpPacket.parse request = NtpPacket.parse header ∧
      (requestFields request).placeholders = extraCookies ∧
      ∃ auth, IsNts request cookie uniqueId auth ∧
        verifyClientAuthenticator aead request auth key = true := by
  have htag : ciphertext.length = tagLen := by
    rw [hideal.length _ _ _ _ hencrypt]
    rfl
  have hfound := requestFields_protected extraCookies hheader hid hcookie
    authNonce.length_toList htag
  rw [← hrequest] at hfound
  refine ⟨?_, by rw [hfound], _, ⟨by rw [hfound], ?_, by rw [hfound]⟩, ?_⟩
  · rw [hrequest]
    unfold protectedPart
    rw [List.append_assoc, List.append_assoc, List.append_assoc, NtpPacket.parse_append hheader]
  · rw [← requestFields_lastBody, hfound]
  · rw [hrequest]
    exact verifyClientAuthenticator_protected authNonce.length_toList htag
      (hideal.opens _ _ _ _ hencrypt)

theorem IsRequest.spec (hideal : aead.Ideal) (hcookie : cookie.length = 100)
    (h : s.IsRequest aead nonce cookie request) :
    NtpPacket.parse request = .ok (NtpPacket.clientRequest 4 nonce) ∧
      (requestFields request).placeholders = s.extraCookies ∧
      ∃ auth, IsNts request cookie s.pendingUniqueId.toList auth ∧
        verifyClientAuthenticator aead request auth s.keys.c2s = true := by
  obtain ⟨authNonce, ciphertext, hencrypt, hrequest⟩ := h
  obtain ⟨hparse, hrest⟩ := protected_spec hideal (NtpPacket.length_toBytes _)
    s.pendingUniqueId.length_toList hcookie hencrypt hrequest
  exact ⟨hparse.trans (NtpPacket.parse_toBytes _ (.inr rfl)), hrest⟩

end NtsSession

/-! ## The server -/

section

variable {K R : Type} [Field R] [LinearOrder R] [FloorRing R]

/-- What the header of an NTS reply is, stamped. -/
theorem stamped_buildNtsReply {ring : KeyRing} {keys : NtsKeys} {uniqueId : List UInt8}
    {placeholders : Nat} {header : NtpPacket} {mode : ResponseMode} {clock : ClockReadings R}
    {random : SystemRandom} {bytes : List UInt8}
    (h : buildNtsReply aead ring keys uniqueId placeholders header mode clock random =
      some bytes) :
    ∃ stamped, stampTransmit header mode clock = some stamped ∧ stamped.toBytes <+: bytes := by
  unfold buildNtsReply at h
  dsimp only at h
  split at h
  · cases h
  · split at h
    · cases h
    · split at h
      · cases h
      · next stamped hstamped =>
        split at h
        · cases h
        · split at h
          · cases h
          · refine ⟨stamped, hstamped, ?_⟩
            rw [← Option.some.inj h, List.append_assoc]
            exact List.prefix_append _ _

/-- An NTS reply as the client that sent the identifier verifies it. -/
theorem buildNtsReply_verified (hideal : aead.Ideal) {ring : KeyRing} {master : MasterKey}
    (hcurrent : ring.current = some master) (keys : NtsKeys) (uniqueId : Vector UInt8 32)
    (placeholders : Nat) (header : NtpPacket) (mode : ResponseMode) {clock : ClockReadings R}
    (hclock : clock.wallParts.isSome) {random : SystemRandom} (hrandom : random.Works) :
    ∃ bytes news, buildNtsReply aead ring keys uniqueId.toList placeholders header mode clock
        random = some bytes ∧
      Ef.verifyResponse aead bytes keys.s2c uniqueId = .ok news ∧
      news.length = min (1 + placeholders) 8 ∧
      ∀ c ∈ news, Cookie.SealedUnder aead master keys c := by
  obtain ⟨stamped, nonce, nonces, plaintext, ciphertext, hcount, hnonces, hmint, hseal, hbuild⟩ :=
    buildNtsReply_spec hideal hcurrent keys uniqueId.toList placeholders header mode hclock hrandom
  have htake : uniqueId.toList.take uniqueIdLen = uniqueId.toList :=
    List.take_of_length_le (by rw [uniqueId.length_toList]; exact Nat.le_refl _)
  rw [htake] at hseal hbuild
  have hplaintext := Cookie.length_mintFields hideal.tagged hnonces hmint
  have hlen := hideal.length _ _ _ _ hseal
  have hcap : nonces.length ≤ 8 := hcount ▸ Nat.min_le_right _ _
  unfold Cookie.fieldLen at hplaintext
  unfold tagLen at hlen
  refine ⟨_, _, hbuild, verifyResponse_reply stamped.length_toBytes nonce.length_toList (by omega)
    (by omega) (hideal.opens _ _ _ _ hseal), ?_, ?_⟩
  · have hids : KeyRing.DistinctIds ⟨[master], 1⟩ := List.pairwise_singleton _ _
    rw [Ef.newCookies_eq, (Cookie.newCookies_mintFields hideal hids
      (List.mem_singleton_self _) 0 hnonces hmint).1, hcount]
    rfl
  · rw [Ef.newCookies_eq]
    exact Cookie.sealedUnder_cookiesOf hideal 0 hnonces hmint

/-- A request that names no time before is answered in basic mode. -/
theorem responseModeAt_zero (t : ClientTable K R) (handle : ClientHandle) {origin : NtpTimestamp}
    (h : origin.isZero = true) : (t.responseModeAt handle origin).2 = .basic := by
  unfold ClientTable.responseModeAt
  split
  · rfl
  · split
    · rfl
    · dsimp only
      split
      · rfl
      · simp [h]

theorem respond_basic (aead : Aead) (request : List UInt8) {parsed : NtpPacket}
    (recvTs : NtpTimestamp) (guard : ServerState K R) (handle : ClientHandle)
    (clock : ClockReadings R) (random : SystemRandom) (horigin : parsed.originTs.isZero = true) :
    ∃ guard' : ServerState K R, guard'.ring = guard.ring ∧
      (respond aead request parsed recvTs guard handle clock random).2 =
        (answer aead request parsed recvTs guard' .basic clock random).map
          fun bytes => ⟨bytes, handle⟩ := by
  have hmode := responseModeAt_zero guard.clients handle horigin
  let clients := (guard.clients.responseModeAt handle parsed.originTs).1
  refine ⟨{ guard with
    clients := clients.noteResponseAt handle recvTs (timestampFields .basic recvTs).1 }, rfl, ?_⟩
  unfold respond
  dsimp only
  rw [hmode]

variable [DecidableEq K]

/-- Building a reply changes no key. -/
theorem ring_buildReplyIn (aead : Aead) (request : List UInt8) (peer : SocketAddr K)
    (recvTs : NtpTimestamp) (guard : ServerState K R) (clock : ClockReadings R)
    (random : SystemRandom) :
    (buildReplyIn aead request peer recvTs guard clock random).1.ring = guard.ring := by
  rcases buildReplyIn_cases aead request peer recvTs guard clock random with
    hrefused | hunread | ⟨parsed, nowMono, disposition, handle, hreaches, hgate⟩
  · rw [hrefused]
  · rw [hunread]
  · obtain ⟨hkiss, hdrop, hrespond⟩ :=
      buildReplyIn_of_reaches hreaches aead peer recvTs random hgate
    cases disposition with
    | kissOfDeath => rw [hkiss rfl]; rfl
    | drop => rw [hdrop rfl]; rfl
    | respond => rw [hrespond rfl]; rfl

variable {guard : ServerState K R} {request : List UInt8} {parsed : NtpPacket}
  {peer : SocketAddr K} {clock : ClockReadings R}

/-- What is sent for a request is a kiss from the limiter, or it was admitted to be answered. -/
theorem reply_cases (hparse : NtpPacket.parse request = .ok parsed) {recvTs : NtpTimestamp}
    {random : SystemRandom} {reply : Reply}
    (h : (buildReplyIn aead request peer recvTs guard clock random).2 = some reply) :
    reply.bytes.asSlice = kissOfDeath parsed recvTs ∨
      AdmittedToRespond guard request peer clock := by
  rcases buildReplyIn_cases aead request peer recvTs guard clock random with
    hrefused | hunread | ⟨p, nowMono, disposition, handle, hreaches, hgate⟩
  · rw [hrefused] at h
    cases h
  · rw [hunread] at h
    cases h
  · obtain ⟨hkiss, hdrop, -⟩ := buildReplyIn_of_reaches hreaches aead peer recvTs random hgate
    obtain rfl : p = parsed := Except.ok.inj (hreaches.parse.symm.trans hparse)
    cases disposition with
    | kissOfDeath =>
      rw [hkiss rfl] at h
      rw [← Option.some.inj h]
      exact .inl rfl
    | drop =>
      rw [hdrop rfl] at h
      cases h
    | respond => exact .inr ⟨p, nowMono, hreaches, congrArg Prod.fst hgate⟩

/-- A first request in basic mode. -/
theorem buildReplyIn_basic (h : AdmittedToRespond guard request peer clock)
    (hparse : NtpPacket.parse request = .ok parsed) (horigin : parsed.originTs.isZero = true)
    (aead : Aead) (recvTs : NtpTimestamp) (random : SystemRandom) :
    ∃ (guard' : ServerState K R) (handle : ClientHandle), guard'.ring = guard.ring ∧
      (buildReplyIn aead request peer recvTs guard clock random).2 =
        (answer aead request parsed recvTs guard' .basic clock random).map
          fun bytes => ⟨bytes, handle⟩ := by
  obtain ⟨p, nowMono, hreaches, hrespond⟩ := h
  obtain rfl : p = parsed := Except.ok.inj (hreaches.parse.symm.trans hparse)
  obtain ⟨-, -, hbuild⟩ :=
    buildReplyIn_of_reaches hreaches aead peer recvTs random (Prod.ext hrespond rfl)
  obtain ⟨guard', hring, hanswer⟩ := respond_basic aead request recvTs
    (admitted guard peer nowMono) (guard.clients.admitHandle (clientKey peer) nowMono).2.2 clock
    random horigin
  exact ⟨guard', _, hring, by rw [hbuild rfl, hanswer]⟩

end

/-! ## The answer -/

/-- Without an authenticator nothing verifies. -/
theorem not_verifies {bytes : List UInt8}
    (h : ∀ field ∈ Ef.fields bytes, field.fieldType ≠ FieldType.ntsAuthenticator)
    (s : NtsSession) : ¬Verifies aead (some s) bytes := by
  intro hverifies
  have hverify := hverifies s rfl
  unfold NtsSession.verify at hverify
  cases hresponse : Ef.verifyResponse aead bytes s.keys.s2c s.pendingUniqueId with
  | error e =>
    rw [hresponse] at hverify
    cases hverify
  | ok news =>
    obtain ⟨-, reply, hreply, -⟩ := Ef.verifyResponse_ok hresponse
    unfold sealedReply at hreply
    split at hreply
    · cases hreply
    · next field hfield =>
      have htype : field.fieldType = FieldType.ntsAuthenticator := by
        simpa using List.find?_some hfield
      exact h field (List.mem_of_find?_eq_some hfield) htype

/-- **A kiss from the limiter is passed over.** -/
theorem kiss_junk {parsed : NtpPacket} (hversion : parsed.version = 3 ∨ parsed.version = 4)
    (recvTs nonce : NtpTimestamp) (s : NtsSession) :
    Junk aead nonce (some s) (kissOfDeath parsed recvTs) := by
  intro packet haddressed
  have hparse : NtpPacket.parse (kissOfDeath parsed recvTs) = .ok _ :=
    NtpPacket.parse_toBytes _ hversion
  obtain rfl := Except.ok.inj (hparse.symm.trans haddressed.parse)
  refine ⟨not_verifies ?_ s, rfl⟩
  have hfields : Ef.fields (kissOfDeath parsed recvTs) = [] := by
    rw [← List.append_nil (kissOfDeath parsed recvTs),
      Ef.fields_append (length_kissOfDeath parsed recvTs), Ef.readFields_nil]
  rw [hfields]
  exact fun _ hmem => absurd hmem List.not_mem_nil

/-- The packet of a NAK. -/
def nakPacket (request : NtpPacket) (recvTs : NtpTimestamp) : NtpPacket where
  leap := .noWarning
  version := request.version
  mode := .server
  stratum := 0
  poll := request.poll
  precision := -20
  rootDelay := ⟨0⟩
  rootDispersion := ⟨0⟩
  referenceId := #[0x4E, 0x54, 0x53, 0x4E].toVector
  referenceTs := .zero
  originTs := request.transmitTs
  receiveTs := recvTs
  transmitTs := recvTs

theorem ntsNak_header (request : NtpPacket) (recvTs : NtpTimestamp) :
    copyAt (kissOfDeath request recvTs) 12 [0x4E, 0x54, 0x53, 0x4E] =
      (nakPacket request recvTs).toBytes := by
  unfold kissOfDeath copyAt
  rw [NtpPacket.toBytes_eq, NtpPacket.toBytes_eq]
  simp [List.take_append, List.drop_append, List.take_of_length_le, List.drop_eq_nil_of_le,
    nakPacket, NtpPacket.firstByte]

section

variable {K R : Type} [DecidableEq K] [Field R] [LinearOrder R] [FloorRing R]
  {guard : ServerState K R} {peer : SocketAddr K} {clock : ClockReadings R}
  {random : SystemRandom} {s : NtsSession} {nonce : NtpTimestamp} {cookie request : List UInt8}

/-- **While its cookie's master key is in the ring**, a request that is admitted is answered, the
client takes the answer, and the cookies in it are as many as it asked for, sealed under the newest
master key. -/
theorem reply_genuine (hideal : aead.Ideal) (hids : guard.ring.DistinctIds) {master : MasterKey}
    (hmem : master ∈ guard.ring.keys) (hcookie : Cookie.SealedUnder aead master s.keys cookie)
    (h : s.IsRequest aead nonce cookie request)
    (hadmitted : AdmittedToRespond guard request peer clock) (hclock : clock.wallParts.isSome)
    (hrandom : random.Works) (recvTs : NtpTimestamp) :
    ∃ newest reply packet news, guard.ring.current = some newest ∧
      (buildReplyIn aead request peer recvTs guard clock random).2 = some reply ∧
      IsGenuine aead nonce (some s) reply.bytes.asSlice packet ∧
      Ef.verifyResponse aead reply.bytes.asSlice s.keys.s2c s.pendingUniqueId = .ok news ∧
      news.length = min (1 + s.extraCookies) 8 ∧
      ∀ c ∈ news, Cookie.SealedUnder aead newest s.keys c := by
  obtain ⟨hparse, hplaceholders, auth, hnts, hauth⟩ := h.spec hideal (hcookie.length hideal)
  obtain ⟨guard', handle, hring, hbuild⟩ :=
    buildReplyIn_basic hadmitted hparse rfl aead recvTs random
  have hredeem := hcookie.redeem hideal hids hmem
  obtain ⟨newest, hcurrent⟩ := KeyRing.exists_current hmem
  rw [← hring] at hredeem hcurrent
  obtain ⟨bytes, news, hbytes, hverify, hcount, hsealed⟩ := buildNtsReply_verified hideal hcurrent
    s.keys s.pendingUniqueId s.extraCookies
    (replyHeader guard' (NtpPacket.clientRequest 4 nonce) .basic recvTs) .basic hclock hrandom
  obtain ⟨stamped, hstamped, rest, rfl⟩ := stamped_buildNtsReply hbytes
  have hparsed : NtpPacket.parse (stamped.toBytes ++ rest) = .ok stamped ∧
      stamped.mode = .server ∧ stamped.originTs = nonce := by
    unfold stampTransmit at hstamped
    dsimp only at hstamped
    split at hstamped
    · cases hstamped
    · obtain rfl := Option.some.inj hstamped
      refine ⟨?_, rfl, rfl⟩
      rw [NtpPacket.parse_append (NtpPacket.length_toBytes _)]
      exact NtpPacket.parse_toBytes _ (.inr rfl)
  obtain ⟨hparsed, hmode, horigin⟩ := hparsed
  have hlong : headerLen ≤ (stamped.toBytes ++ rest).length := by
    rw [List.length_append, stamped.length_toBytes]
    exact Nat.le_add_right _ _
  have hgenuine : Verifies aead (some s) (stamped.toBytes ++ rest) := by
    intro session hsession
    obtain rfl := Option.some.inj hsession
    unfold NtsSession.verify
    rw [hverify]
  refine ⟨newest, ⟨.extended (stamped.toBytes ++ rest), handle⟩, stamped, news, hring ▸ hcurrent,
    ?_, ⟨⟨hlong, hparsed, hmode, horigin⟩, hgenuine⟩, hverify, hcount, hsealed⟩
  rw [hbuild, answer_nts hnts hredeem hauth, hplaceholders, hbytes]
  rfl

/-- **When it does not redeem**, the answer to an admitted request is a NAK. -/
theorem reply_nak (hideal : aead.Ideal) (hcookie : cookie.length = 100) {e : CookieError}
    (hredeem : Cookie.redeem aead guard.ring cookie = .error e)
    (h : s.IsRequest aead nonce cookie request)
    (hadmitted : AdmittedToRespond guard request peer clock) (recvTs : NtpTimestamp)
    (random : SystemRandom) :
    ∃ reply packet, (buildReplyIn aead request peer recvTs guard clock random).2 = some reply ∧
      Addressed nonce reply.bytes.asSlice packet ∧ isNtsn packet = true ∧
      ¬Verifies aead (some s) reply.bytes.asSlice := by
  obtain ⟨hparse, -, auth, hnts, -⟩ := h.spec hideal hcookie
  obtain ⟨guard', handle, hring, hbuild⟩ :=
    buildReplyIn_basic hadmitted hparse rfl aead recvTs random
  rw [← hring] at hredeem
  have hheader := ntsNak_header (NtpPacket.clientRequest 4 nonce) recvTs
  have hid : s.pendingUniqueId.toList.length = 32 := s.pendingUniqueId.length_toList
  have hfields : Ef.fields (ntsNak (NtpPacket.clientRequest 4 nonce) recvTs
      s.pendingUniqueId.toList) =
        [⟨FieldType.uniqueIdentifier, s.pendingUniqueId.toList, headerLen⟩] := by
    rw [ntsNak, hheader, Ef.fields_append (NtpPacket.length_toBytes _),
      ← List.append_nil (Ef.writeField FieldType.uniqueIdentifier _),
      Ef.readFields_writeField_of_mod [] (by decide) (by rw [hid]) (by rw [hid]; decide)
        (by rw [hid]; decide), Ef.readFields_nil]
  refine ⟨⟨.extended (ntsNak (NtpPacket.clientRequest 4 nonce) recvTs s.pendingUniqueId.toList),
    handle⟩, nakPacket (NtpPacket.clientRequest 4 nonce) recvTs, ?_, ⟨?_, ?_, rfl, rfl⟩, rfl, ?_⟩
  · rw [hbuild, answer_nak hnts hredeem]
    rfl
  · show headerLen ≤ (ntsNak _ _ _).length
    rw [length_ntsNak]
    exact Nat.le_add_right _ _
  · show NtpPacket.parse (ntsNak _ _ _) = _
    rw [ntsNak, hheader, NtpPacket.parse_append (NtpPacket.length_toBytes _)]
    exact NtpPacket.parse_toBytes _ (.inr rfl)
  · refine not_verifies ?_ s
    show ∀ field ∈ Ef.fields (ntsNak _ _ _), _
    rw [hfields]
    intro field hmem
    rw [List.mem_singleton.mp hmem]
    exact show FieldType.uniqueIdentifier ≠ FieldType.ntsAuthenticator by decide

end

end RustyTime
