import RustyTime.Nts.Writers
import RustyTime.Properties.Cookie

/-!
# One encoder

The writers without allocations put the bytes of the plain ones on the end of the buffer, and
leave what is in front of them alone.

* `writeFieldTo_eq`, `writeFieldPartsTo_eq`, `writeZeroFieldTo_eq`, `writeAuthenticatorTo_eq`
* `mintLoop_eq` — a turn of the loop is one `mint` handed to `write_field`
* `mintFieldsTo_eq_mintFieldsInto` — the server's minting is this one
* `writers_eq_write_field` — all of them
-/

namespace RustyTime

open Infra.Bytes

/-! ## Padding -/

@[simp] theorem resize_add (v : List UInt8) (n : Nat) (value : UInt8) :
    resize v (v.length + n) value = v ++ List.replicate n value := by
  simp [resize]

@[simp] theorem foldl_append_parts (out : List UInt8) (parts : List (List UInt8)) :
    parts.foldl (fun out part => out ++ part) out = out ++ parts.flatten := by
  induction parts generalizing out with
  | nil => simp
  | cons part parts ih => simp [ih]

namespace Ef

theorem writeFieldTo_eq (out : List UInt8) (fieldType : Nat) (body : List UInt8) :
    writeFieldTo out fieldType body = out ++ writeField fieldType body := by
  unfold writeFieldTo
  dsimp only
  rw [resize_add]
  simp [writeField, fieldTotal]

theorem writeFieldPartsTo_eq (out : List UInt8) (fieldType : Nat) (parts : List (List UInt8)) :
    writeFieldPartsTo out fieldType parts = writeFieldTo out fieldType parts.flatten := by
  rw [writeFieldTo_eq, ← writeFieldParts_eq]
  unfold writeFieldPartsTo
  dsimp only
  rw [resize_add]
  simp [writeFieldParts, fieldTotal]

theorem writeZeroFieldTo_eq (out : List UInt8) (fieldType len : Nat) :
    writeZeroFieldTo out fieldType len = writeFieldTo out fieldType (List.replicate len 0) := by
  have hmin := minEfLen_le_fieldTotal len
  unfold fieldTotal minEfLen at hmin
  rw [writeFieldTo_eq, ← writeZeroField_eq]
  unfold writeZeroFieldTo minEfLen
  dsimp only
  rw [Nat.add_sub_assoc (by omega), resize_add]
  simp [writeZeroField, fieldTotal, minEfLen]

theorem writeAuthenticatorTo_eq (out nonce ciphertext : List UInt8) :
    writeAuthenticatorTo out nonce ciphertext =
      writeFieldTo out FieldType.ntsAuthenticator (authenticatorBody nonce ciphertext) := by
  rw [writeFieldTo_eq, ← writeAuthenticator_eq]
  unfold writeAuthenticatorTo
  dsimp only
  rw [Nat.add_sub_assoc (le_nextMultipleOf4 _), resize_add,
    Nat.add_sub_assoc (le_nextMultipleOf4 _), resize_add, resize_add]
  simp [writeAuthenticator, fieldTotal]

end Ef

/-! ## Cookies, one turn after another -/

variable {S : Type}

/-- A cipher made for `key`, whatever it has sealed since. -/
inductive Sealer.Used (sealer : Sealer S) (key : Vector UInt8 32) : S → Prop
  | new : Used sealer key (sealer.new key)
  | again {cipher : S} (aad : List (List UInt8)) (buffer : List UInt8) :
      Used sealer key cipher → Used sealer key (sealer.sealInPlace cipher aad buffer).1

/-- Sealing in place gives the bytes of `seal`. -/
def Sealer.Agrees (sealer : Sealer S) (aead : Aead) : Prop :=
  ∀ key cipher, sealer.Used key cipher → ∀ aad buffer,
    (sealer.sealInPlace cipher aad buffer).2 = aead.encrypt key aad buffer

/-- A sealer over the checksum cipher: its key schedule is the key. -/
def Sealer.checksum : Sealer (Vector UInt8 32) where
  new key := key
  sealInPlace key aad buffer := (key, Aead.checksum.encrypt key aad buffer)

theorem Sealer.checksum_agrees : Sealer.checksum.Agrees Aead.checksum := by
  intro key cipher hused aad buffer
  have hkey : cipher = key := by
    induction hused with
    | new => rfl
    | again _ _ _ ih => exact ih
  rw [hkey]
  rfl

namespace Cookie

/-- Calling `mint` for each nonce and handing each cookie to `write_field`. -/
def mintEach (aead : Aead) (ring : KeyRing) (keys : NtsKeys) :
    List (Vector UInt8 16) → List UInt8 → List UInt8 × Except CookieError Unit
  | [], out => (out, .ok ())
  | nonce :: nonces, out =>
    match mint aead ring keys nonce with
    | .error e => (out, .error e)
    | .ok cookie =>
      mintEach aead ring keys nonces (Ef.writeFieldTo out FieldType.ntsCookie cookie)

variable {aead : Aead} {sealer : Sealer S} {ring : KeyRing} {keys : NtsKeys} {master : MasterKey}

/-- The header buffer between two turns: the key id in front, any nonce behind it. -/
structure HeaderFor (master : MasterKey) (header : List UInt8) : Prop where
  length : header.length = keyIdLen + cookieNonceLen
  keyId : header.take keyIdLen = toBe 4 master.id.toNat

/-- The next nonce overwrites the last. -/
theorem HeaderFor.copyAt {header : List UInt8} (h : HeaderFor master header)
    (nonce : Vector UInt8 16) :
    Infra.Bytes.copyAt header keyIdLen nonce.toList = Cookie.header master nonce.toList := by
  have hlen := h.length
  unfold Infra.Bytes.copyAt
  rw [h.keyId, List.drop_eq_nil_of_le (by simp [hlen, cookieNonceLen]), List.append_nil]
  rfl

theorem headerFor_header (master : MasterKey) (nonce : Vector UInt8 16) :
    HeaderFor master (header master nonce.toList) where
  length := length_header master (by simp [cookieNonceLen])
  keyId := List.take_left' (length_toBe _ _)

/-- The buffer as it is before the first turn. -/
theorem headerFor_blank (master : MasterKey) :
    HeaderFor master
      (Infra.Bytes.copyAt (List.replicate (keyIdLen + cookieNonceLen) 0) 0
        (toBe 4 master.id.toNat)) := by
  have hcopy := @copyAt_blank [] (toBe 4 master.id.toNat) (keyIdLen + cookieNonceLen) 0 0 rfl
  rw [List.nil_append, List.nil_append] at hcopy
  rw [hcopy]
  constructor
  · simp [keyIdLen, cookieNonceLen]
  · exact List.take_left' (length_toBe _ _)

theorem payload_copied (keys : NtsKeys) :
    Infra.Bytes.copyAt (Infra.Bytes.copyAt (List.replicate 64 0) 0 keys.c2s.toList) 32
      keys.s2c.toList = payload keys := by
  have hfirst := @copyAt_blank [] keys.c2s.toList 64 0 0 rfl
  rw [List.nil_append, List.nil_append] at hfirst
  rw [hfirst, copyAt_blank 32 (by simp)]
  simp [payload]

/-- **The loop mints as `mint` does**, by induction on the nonces: the cipher stays one made for
the master key, and the header keeps its key id. -/
theorem mintLoop_eq (hagrees : sealer.Agrees aead) (hcurrent : ring.current = some master)
    (nonces : List (Vector UInt8 16)) {cipher : S} {header : List UInt8}
    (hcipher : sealer.Used master.key cipher) (hheader : HeaderFor master header)
    (sealed out : List UInt8) :
    mintLoop sealer (payload keys) nonces cipher header sealed out =
      mintEach aead ring keys nonces out := by
  induction nonces generalizing cipher header sealed out with
  | nil => rfl
  | cons nonce nonces ih =>
    have hseal := hagrees master.key cipher hcipher [Cookie.header master nonce.toList]
      (payload keys)
    have hafter := hcipher.again [Cookie.header master nonce.toList] (payload keys)
    unfold mintLoop mintEach mint
    rw [hcurrent]
    dsimp only
    rw [hheader.copyAt nonce, List.take_zero, List.nil_append, ← hseal]
    generalize sealer.sealInPlace cipher [Cookie.header master nonce.toList] (payload keys) = result
      at hafter
    obtain ⟨cipher', _ | sealed'⟩ := result
    · rfl
    · have hwrite : Ef.writeFieldPartsTo out FieldType.ntsCookie
          [Cookie.header master nonce.toList, sealed'] =
            Ef.writeFieldTo out FieldType.ntsCookie
              (Cookie.header master nonce.toList ++ sealed') := by
        rw [Ef.writeFieldPartsTo_eq]
        simp
      dsimp only
      rw [hwrite]
      exact ih hafter (headerFor_header master nonce) _ _

/-- With a key to mint under, the loop is `mint` nonce by nonce. -/
theorem mintFieldsTo_eq (hagrees : sealer.Agrees aead) (hcurrent : ring.current = some master)
    (nonces : List (Vector UInt8 16)) (out : List UInt8) :
    mintFieldsTo sealer ring keys nonces out = mintEach aead ring keys nonces out := by
  unfold mintFieldsTo
  rw [hcurrent]
  dsimp only
  rw [payload_copied]
  exact mintLoop_eq hagrees hcurrent nonces .new (headerFor_blank master) _ _

theorem mint_of_empty (h : ring.current = none) (nonce : Vector UInt8 16) :
    mint aead ring keys nonce = .error .malformed := by
  unfold mint
  rw [h]

/-- Cookies that come out are written one after another. -/
theorem mintEach_append {cookies : List (List UInt8)} {before : List (Vector UInt8 16)}
    (h : before.map (mint aead ring keys) = cookies.map .ok) (after : List (Vector UInt8 16))
    (out : List UInt8) :
    mintEach aead ring keys (before ++ after) out =
      mintEach aead ring keys after
        (out ++ (cookies.map (Ef.writeField FieldType.ntsCookie)).flatten) := by
  induction before generalizing cookies out with
  | nil =>
    obtain rfl : cookies = [] := by simpa using h.symm
    simp
  | cons nonce before ih =>
    cases cookies with
    | nil => simp at h
    | cons cookie cookies =>
      simp only [List.map_cons, List.cons.injEq] at h
      obtain ⟨hcookie, hrest⟩ := h
      simp only [List.cons_append, mintEach, hcookie]
      rw [ih hrest, Ef.writeFieldTo_eq]
      simp

/-- The server's minting is this one, from an empty buffer on. -/
theorem mintEach_eq_mintFields (hcurrent : ring.current = some master)
    (nonces : List (Vector UInt8 16)) {plaintext : List UInt8}
    (h : mintFields aead master keys (nonces.map Vector.toList) = .ok plaintext)
    (out : List UInt8) : mintEach aead ring keys nonces out = (out ++ plaintext, .ok ()) := by
  induction nonces generalizing plaintext out with
  | nil =>
    cases h
    simp [mintEach]
  | cons nonce nonces ih =>
    obtain ⟨sealed, rest, hsealed, hrest, rfl⟩ := mintFields_cons h
    have hmint : mint aead ring keys nonce = .ok (header master nonce.toList ++ sealed) := by
      simp [mint, hcurrent, hsealed]
    simp only [mintEach, hmint]
    rw [ih hrest, Ef.writeFieldTo_eq]
    simp

/-- The loop over the buffer writes what the server's minting makes of the same nonces. -/
theorem mintFieldsTo_eq_mintFieldsInto (hagrees : sealer.Agrees aead)
    (nonces : List (Vector UInt8 16)) {plaintext : List UInt8}
    (h : mintFieldsInto aead ring keys (nonces.map Vector.toList) = .ok plaintext)
    (out : List UInt8) : mintFieldsTo sealer ring keys nonces out = (out ++ plaintext, .ok ()) := by
  unfold mintFieldsInto at h
  split at h
  · cases h
  · next master hcurrent =>
    rw [mintFieldsTo_eq hagrees hcurrent, mintEach_eq_mintFields hcurrent nonces h]

end Cookie

/-- **The writers without allocations write what the plain ones write.** Minting into a buffer
appends a cookie's field for each nonce up to the first that does not mint; a field of parts, of
zeros or of an authenticator is the field of its body, at every length. -/
theorem writers_eq_write_field {aead : Aead} {sealer : Sealer S} (hagrees : sealer.Agrees aead) :
    (∀ (ring : KeyRing) (keys : NtsKeys) (nonces : List (Vector UInt8 16)) (out : List UInt8)
      (cookies : List (List UInt8)),
      nonces.map (Cookie.mint aead ring keys) = cookies.map .ok →
        (Cookie.mintFieldsTo sealer ring keys nonces out).1 =
            out ++ (cookies.map (Ef.writeField FieldType.ntsCookie)).flatten ∧
          (ring.current ≠ none → (Cookie.mintFieldsTo sealer ring keys nonces out).2 = .ok ())) ∧
    (∀ (ring : KeyRing) (keys : NtsKeys) (before : List (Vector UInt8 16))
      (nonce : Vector UInt8 16) (after : List (Vector UInt8 16)) (out : List UInt8)
      (cookies : List (List UInt8)) (e : CookieError),
      before.map (Cookie.mint aead ring keys) = cookies.map .ok →
        Cookie.mint aead ring keys nonce = .error e →
          Cookie.mintFieldsTo sealer ring keys (before ++ nonce :: after) out =
            (out ++ (cookies.map (Ef.writeField FieldType.ntsCookie)).flatten, .error e)) ∧
    (∀ (out : List UInt8) (fieldType : Nat) (body : List UInt8),
      Ef.writeFieldTo out fieldType body = out ++ Ef.writeField fieldType body) ∧
    (∀ (out : List UInt8) (fieldType : Nat) (parts : List (List UInt8)),
      Ef.writeFieldPartsTo out fieldType parts = Ef.writeFieldTo out fieldType parts.flatten) ∧
    (∀ (out : List UInt8) (fieldType len : Nat),
      Ef.writeZeroFieldTo out fieldType len =
        Ef.writeFieldTo out fieldType (List.replicate len 0)) ∧
    ∀ out nonce ciphertext : List UInt8,
      Ef.writeAuthenticatorTo out nonce ciphertext =
          Ef.writeFieldTo out FieldType.ntsAuthenticator
            (Ef.authenticatorBody nonce ciphertext) ∧
        Ef.authenticatorField nonce ciphertext =
          Ef.writeField FieldType.ntsAuthenticator (Ef.authenticatorBody nonce ciphertext) := by
  refine ⟨?_, ?_, Ef.writeFieldTo_eq, Ef.writeFieldPartsTo_eq, Ef.writeZeroFieldTo_eq, ?_⟩
  · intro ring keys nonces out cookies hcookies
    cases hcurrent : ring.current with
    | none =>
      -- only an empty list of nonces mints nothing under no key
      cases nonces with
      | nil =>
        obtain rfl : cookies = [] := by simpa using hcookies.symm
        simp [Cookie.mintFieldsTo, hcurrent]
      | cons nonce nonces =>
        cases cookies with
        | nil => simp at hcookies
        | cons cookie cookies => simp [Cookie.mint_of_empty hcurrent] at hcookies
    | some master =>
      have happend := Cookie.mintEach_append hcookies [] out
      rw [List.append_nil] at happend
      rw [Cookie.mintFieldsTo_eq hagrees hcurrent, happend]
      simp [Cookie.mintEach]
  · intro ring keys before nonce after out cookies e hcookies herror
    cases hcurrent : ring.current with
    | none =>
      rw [Cookie.mint_of_empty hcurrent] at herror
      cases before with
      | nil =>
        obtain rfl : cookies = [] := by simpa using hcookies.symm
        simpa [Cookie.mintFieldsTo, hcurrent] using herror
      | cons first before =>
        cases cookies with
        | nil => simp at hcookies
        | cons cookie cookies => simp [Cookie.mint_of_empty hcurrent] at hcookies
    | some master =>
      rw [Cookie.mintFieldsTo_eq hagrees hcurrent, Cookie.mintEach_append hcookies]
      simp [Cookie.mintEach, herror]
  · intro out nonce ciphertext
    refine ⟨Ef.writeAuthenticatorTo_eq out nonce ciphertext, ?_⟩
    rw [Ef.authenticatorField, Ef.writeAuthenticatorTo_eq, Ef.writeFieldTo_eq, List.nil_append]

/-- Two cookies under one key, after a byte that is in the buffer already. -/
theorem writers_eq_write_field_two :
    (Cookie.mintFieldsTo Sealer.checksum ⟨[⟨5, Vector.replicate 32 0⟩], 1⟩
        ⟨Vector.replicate 32 1, Vector.replicate 32 2⟩
        [Vector.replicate 16 3, Vector.replicate 16 4] [7]).1 =
      [7] ++ (([Vector.replicate 16 3, Vector.replicate 16 4].map fun nonce =>
        Cookie.header ⟨5, Vector.replicate 32 0⟩ nonce.toList ++
          ((Aead.checksum.encrypt (Vector.replicate 32 0)
            [Cookie.header ⟨5, Vector.replicate 32 0⟩ nonce.toList]
            (Cookie.payload ⟨Vector.replicate 32 1, Vector.replicate 32 2⟩)).getD [])).map
        (Ef.writeField FieldType.ntsCookie)).flatten :=
  ((writers_eq_write_field Sealer.checksum_agrees).1 _ _ _ _ _ rfl).1

end RustyTime
