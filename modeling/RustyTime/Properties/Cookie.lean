import RustyTime.Properties.Ef

/-!
# Cookies redeemed

A cookie is good as long as the master key it names is in the ring, and no other key has its id.

* `mintFields_cons` — one turn of the minting loop
* `redeem_named`, `redeem_sealed` — a minted cookie gives its keys back
* `length_mintFieldsInto` — cookies are all of one size
* `newCookies_mintFields` — the client reads out what the server minted
-/

namespace RustyTime

open Infra.Bytes

/-- The tag is in front of the ciphertext, and that is all that is added. -/
def Aead.Tagged (aead : Aead) : Prop :=
  ∀ key aad plaintext sealed, aead.encrypt key aad plaintext = some sealed →
    sealed.length = plaintext.length + tagLen

theorem Aead.Ideal.tagged {aead : Aead} (h : aead.Ideal) : aead.Tagged := h.length

/-! ## The ring -/

namespace KeyRing

/-- No two master keys of the ring have one id. -/
def DistinctIds (ring : KeyRing) : Prop := (ring.keys.map MasterKey.id).Nodup

theorem mem_of_current {ring : KeyRing} {master : MasterKey} (h : ring.current = some master) :
    master ∈ ring.keys := List.mem_of_getLast? h

/-- With keys in it, a ring has one that mints. -/
theorem exists_current {ring : KeyRing} {master : MasterKey} (h : master ∈ ring.keys) :
    ∃ newest, ring.current = some newest :=
  ⟨_, List.getLast?_eq_some_getLast (List.ne_nil_of_mem h)⟩

theorem byId_of_mem {ring : KeyRing} (hids : ring.DistinctIds) {master : MasterKey}
    (h : master ∈ ring.keys) : ring.byId master.id = some master := by
  unfold DistinctIds at hids
  unfold byId
  induction hkeys : ring.keys generalizing ring with
  | nil =>
    rw [hkeys] at h
    cases h
  | cons key keys ih =>
    rw [hkeys] at h hids
    rw [List.map_cons, List.nodup_cons] at hids
    rcases List.mem_cons.mp h with rfl | hlater
    · exact List.find?_cons_of_pos (by simp)
    · have hne : key.id ≠ master.id := by
        intro heq
        exact hids.1 (heq ▸ List.mem_map_of_mem hlater)
      rw [List.find?_cons_of_neg (by simpa using hne)]
      exact @ih ⟨keys, 0⟩ hids.2 hlater rfl

end KeyRing

namespace Cookie

/-! ## One cookie -/

theorem length_payload (keys : NtsKeys) : (payload keys).length = 64 := by
  simp [payload]

theorem length_header (master : MasterKey) {nonce : List UInt8}
    (h : nonce.length = cookieNonceLen) : (header master nonce).length = 20 := by
  rw [header, List.length_append, length_toBe, h]
  rfl

theorem length_sealed {aead : Aead} (htagged : aead.Tagged) {key : Vector UInt8 32}
    {aad : List (List UInt8)} {keys : NtsKeys} {sealed : List UInt8}
    (h : aead.encrypt key aad (payload keys) = some sealed) : sealed.length = 80 := by
  rw [htagged _ _ _ _ h, length_payload]
  rfl

/-- The key id in front of a cookie is read back. -/
theorem keyId_header (master : MasterKey) (rest : List UInt8) :
    UInt32.ofNat (beNat ((toBe 4 master.id.toNat ++ rest).take 4)) = master.id := by
  rw [List.take_left' (length_toBe _ _), beNat_toBe_of_lt (UInt32.toNat_lt master.id),
    UInt32.ofNat_toNat]

/-- The parts of a minted cookie: the key it names, what is in the clear, what is sealed. -/
theorem cookie_parts (master : MasterKey) {nonce : List UInt8} (sealed : List UInt8)
    (hnonce : nonce.length = cookieNonceLen) :
    UInt32.ofNat (beNat ((header master nonce ++ sealed).take 4)) = master.id ∧
      (header master nonce ++ sealed).take (keyIdLen + cookieNonceLen) = header master nonce ∧
        (header master nonce ++ sealed).drop (keyIdLen + cookieNonceLen) = sealed := by
  have hheader := length_header master hnonce
  refine ⟨?_, List.take_left' hheader, List.drop_left' hheader⟩
  rw [header, List.append_assoc]
  exact keyId_header master _

theorem keyIdLen_le_cookie (master : MasterKey) {nonce sealed : List UInt8}
    (hnonce : nonce.length = cookieNonceLen) (hsealed : sealed.length = 80) :
    ¬(header master nonce ++ sealed).length < keyIdLen + cookieNonceLen + 16 := by
  rw [List.length_append, length_header master hnonce, hsealed]
  decide

/-- A cookie whose key the ring finds gives back what it seals. -/
theorem redeem_named {aead : Aead} (hideal : aead.Ideal) {ring : KeyRing} {master key : MasterKey}
    (hbyId : ring.byId master.id = some key) (hkey : key.key = master.key) {keys : NtsKeys}
    {nonce sealed : List UInt8} (hnonce : nonce.length = cookieNonceLen)
    (h : aead.encrypt master.key [header master nonce] (payload keys) = some sealed) :
    redeem aead ring (header master nonce ++ sealed) = .ok keys := by
  obtain ⟨hid, hclear, hrest⟩ := cookie_parts master sealed hnonce
  unfold redeem
  dsimp only
  rw [if_neg (keyIdLen_le_cookie master hnonce (length_sealed hideal.tagged h)), hid, hbyId]
  dsimp only
  rw [hclear, hrest, hkey, hideal.opens _ _ _ _ h]
  dsimp only
  rw [dif_pos (length_payload keys)]
  congr 2
  · exact Vector.toList_inj.mp (List.take_left' (by simp))
  · exact Vector.toList_inj.mp (List.drop_left' (by simp))

/-- A cookie that the key the ring finds does not open is refused, as is one that names none. -/
theorem redeem_unnamed {aead : Aead} {ring : KeyRing} {master : MasterKey}
    {nonce sealed : List UInt8} (hnonce : nonce.length = cookieNonceLen)
    (hsealed : sealed.length = 80)
    (h : ∀ key, ring.byId master.id = some key →
      aead.decrypt key.key [header master nonce] sealed = none) :
    ∃ e, redeem aead ring (header master nonce ++ sealed) = .error e := by
  obtain ⟨hid, hclear, hrest⟩ := cookie_parts master sealed hnonce
  unfold redeem
  dsimp only
  rw [if_neg (keyIdLen_le_cookie master hnonce hsealed), hid, hclear, hrest]
  cases hbyId : ring.byId master.id with
  | none => exact ⟨_, rfl⟩
  | some key =>
    dsimp only
    rw [h key hbyId]
    exact ⟨_, rfl⟩

/-- **A cookie under one of the ring's keys gives back what it seals.** -/
theorem redeem_sealed {aead : Aead} (hideal : aead.Ideal) {ring : KeyRing}
    (hids : ring.DistinctIds) {master : MasterKey} (hmem : master ∈ ring.keys) {keys : NtsKeys}
    {nonce sealed : List UInt8} (hnonce : nonce.length = cookieNonceLen)
    (h : aead.encrypt master.key [header master nonce] (payload keys) = some sealed) :
    redeem aead ring (header master nonce ++ sealed) = .ok keys :=
  redeem_named hideal (KeyRing.byId_of_mem hids hmem) rfl hnonce h

theorem mint_eq_ok {aead : Aead} {ring : KeyRing} {keys : NtsKeys} {nonce : Vector UInt8 16}
    {cookie : List UInt8} (h : mint aead ring keys nonce = .ok cookie) :
    ∃ master sealed, ring.current = some master ∧
      aead.encrypt master.key [header master nonce.toList] (payload keys) = some sealed ∧
        cookie = header master nonce.toList ++ sealed := by
  unfold mint at h
  split at h
  · cases h
  · next master hmaster =>
    dsimp only at h
    split at h
    · cases h
    · next sealed hsealed =>
      obtain rfl := Except.ok.inj h
      exact ⟨master, sealed, hmaster, hsealed, rfl⟩

/-- The length of one fresh cookie's field. -/
def fieldLen : Nat := 104

/-! ## The minting loop -/

/-- One turn of the loop: one field, and the rest. -/
theorem mintFields_cons {aead : Aead} {master : MasterKey} {keys : NtsKeys} {nonce : List UInt8}
    {nonces : List (List UInt8)} {plaintext : List UInt8}
    (h : mintFields aead master keys (nonce :: nonces) = .ok plaintext) :
    ∃ sealed rest, aead.encrypt master.key [header master nonce] (payload keys) = some sealed ∧
      mintFields aead master keys nonces = .ok rest ∧
        plaintext = Ef.writeField FieldType.ntsCookie (header master nonce ++ sealed) ++ rest := by
  unfold mintFields at h
  dsimp only at h
  split at h
  · cases h
  · next sealed hsealed =>
    split at h
    · cases h
    · next rest hrest =>
      obtain rfl := Except.ok.inj h
      refine ⟨sealed, rest, hsealed, hrest, ?_⟩
      rw [Ef.writeFieldParts_eq]
      simp

theorem length_cookie {aead : Aead} (htagged : aead.Tagged) {master : MasterKey} {keys : NtsKeys}
    {nonce sealed : List UInt8} (hnonce : nonce.length = cookieNonceLen)
    (h : aead.encrypt master.key [header master nonce] (payload keys) = some sealed) :
    (header master nonce ++ sealed).length = 100 := by
  rw [List.length_append, length_header master hnonce, length_sealed htagged h]

theorem length_mintFields {aead : Aead} (htagged : aead.Tagged) {master : MasterKey}
    {keys : NtsKeys} {nonces : List (List UInt8)} {plaintext : List UInt8}
    (hnonces : ∀ nonce ∈ nonces, nonce.length = cookieNonceLen)
    (h : mintFields aead master keys nonces = .ok plaintext) :
    plaintext.length = nonces.length * fieldLen := by
  induction nonces generalizing plaintext with
  | nil =>
    cases h
    rw [List.length_nil, List.length_nil, Nat.zero_mul]
  | cons nonce nonces ih =>
    obtain ⟨sealed, rest, hsealed, hrest, rfl⟩ := mintFields_cons h
    rw [List.length_append, Ef.length_writeField,
      length_cookie htagged (hnonces nonce List.mem_cons_self) hsealed,
      ih (fun n hn => hnonces n (List.mem_cons_of_mem _ hn)) hrest, List.length_cons,
      Nat.add_mul, Nat.one_mul, Nat.add_comm]
    rfl

theorem length_mintFieldsInto {aead : Aead} (htagged : aead.Tagged) {ring : KeyRing}
    {keys : NtsKeys} {nonces : List (List UInt8)} {plaintext : List UInt8}
    (hnonces : ∀ nonce ∈ nonces, nonce.length = cookieNonceLen)
    (h : mintFieldsInto aead ring keys nonces = .ok plaintext) :
    plaintext.length = nonces.length * fieldLen := by
  unfold mintFieldsInto at h
  split at h
  · cases h
  · exact length_mintFields htagged hnonces h

/-- An ideal cipher never stops the loop. -/
theorem mintFields_isOk {aead : Aead} (hideal : aead.Ideal) (master : MasterKey) (keys : NtsKeys)
    (nonces : List (List UInt8)) :
    ∃ plaintext, mintFields aead master keys nonces = .ok plaintext := by
  induction nonces with
  | nil => exact ⟨[], rfl⟩
  | cons nonce nonces ih =>
    obtain ⟨rest, hrest⟩ := ih
    obtain ⟨sealed, hsealed⟩ := Option.isSome_iff_exists.mp
      (hideal.seals master.key [header master nonce] (payload keys))
    unfold mintFields
    dsimp only
    rw [hsealed, hrest]
    exact ⟨_, rfl⟩

/-- **What the client reads out of the minted fields are cookies the ring redeems.** -/
theorem newCookies_mintFields {aead : Aead} (hideal : aead.Ideal) {ring : KeyRing}
    (hids : ring.DistinctIds) {master : MasterKey} (hmem : master ∈ ring.keys) {keys : NtsKeys}
    {nonces : List (List UInt8)} {plaintext : List UInt8} (offset : Nat)
    (hnonces : ∀ nonce ∈ nonces, nonce.length = cookieNonceLen)
    (h : mintFields aead master keys nonces = .ok plaintext) :
    (Ef.cookiesOf (Ef.readFields offset plaintext)).length = nonces.length ∧
      ∀ cookie ∈ Ef.cookiesOf (Ef.readFields offset plaintext),
        redeem aead ring cookie = .ok keys := by
  induction nonces generalizing offset plaintext with
  | nil =>
    cases h
    refine ⟨rfl, ?_⟩
    intro cookie hcookie
    cases hcookie
  | cons nonce nonces ih =>
    obtain ⟨sealed, rest, hsealed, hrest, rfl⟩ := mintFields_cons h
    have hnonce := hnonces nonce List.mem_cons_self
    have hcookie := length_cookie hideal.tagged hnonce hsealed
    obtain ⟨hlen, hredeem⟩ := ih (offset + (4 + (header master nonce ++ sealed).length))
      (fun n hn => hnonces n (List.mem_cons_of_mem _ hn)) hrest
    rw [Ef.readFields_writeField_of_mod rest (by decide) (by rw [hcookie]) (by rw [hcookie]; decide)
      (by rw [hcookie]; decide), Ef.cookiesOf_cons_cookie rfl]
    constructor
    · rw [List.length_cons, hlen, List.length_cons]
    · intro cookie hcookie
      rcases List.mem_cons.mp hcookie with rfl | hlater
      · exact redeem_sealed hideal hids hmem hnonce hsealed
      · exact hredeem cookie hlater

end Cookie

end RustyTime
