import RustyTime.Nts.Cookie

/-!
# Extension fields read back

The writers of a field agree on one layout, and the reader takes a written field apart again.

* `length_writeField` — the length is the total the field announces
* `writeFieldParts_eq`, `writeZeroField_eq`, `writeAuthenticator_eq` — one layout
* `readFields_writeField` — one field off the front
* `mem_fieldsFrom` — what is read is well formed
* `authenticatorParts_body` — an authenticator's body taken apart
-/

namespace RustyTime.Ef

open Infra.Bytes

/-! ## Lengths -/

theorem le_nextMultipleOf4 (n : Nat) : n ≤ nextMultipleOf4 n := by
  unfold nextMultipleOf4
  omega

theorem nextMultipleOf4_mod (n : Nat) : nextMultipleOf4 n % 4 = 0 := by
  unfold nextMultipleOf4
  omega

theorem nextMultipleOf4_of_mod {n : Nat} (h : n % 4 = 0) : nextMultipleOf4 n = n := by
  unfold nextMultipleOf4
  omega

theorem le_fieldTotal (n : Nat) : 4 + n ≤ fieldTotal n :=
  (le_nextMultipleOf4 (4 + n)).trans (le_max_left _ _)

theorem minEfLen_le_fieldTotal (n : Nat) : minEfLen ≤ fieldTotal n := le_max_right _ _

theorem fieldTotal_mod (n : Nat) : fieldTotal n % 4 = 0 := by
  unfold fieldTotal
  rcases max_choice (nextMultipleOf4 (4 + n)) minEfLen with h | h
  · rw [h]
    exact nextMultipleOf4_mod _
  · rw [h]
    rfl

/-- A body of whole words needs no padding. -/
theorem fieldTotal_of_mod {n : Nat} (hmod : n % 4 = 0) (hmin : 12 ≤ n) : fieldTotal n = 4 + n := by
  unfold fieldTotal minEfLen
  rw [nextMultipleOf4_of_mod (by omega)]
  exact max_eq_left (by omega)

@[simp] theorem length_writeField (fieldType : Nat) (body : List UInt8) :
    (writeField fieldType body).length = fieldTotal body.length := by
  have := le_fieldTotal body.length
  simp only [writeField, List.length_append, length_toBe, List.length_replicate]
  omega

/-! ## One layout -/

theorem writeFieldParts_eq (fieldType : Nat) (parts : List (List UInt8)) :
    writeFieldParts fieldType parts = writeField fieldType parts.flatten := by
  unfold writeFieldParts writeField
  rw [List.length_flatten]

theorem writeZeroField_eq (fieldType len : Nat) :
    writeZeroField fieldType len = writeField fieldType (List.replicate len 0) := by
  have := le_fieldTotal len
  unfold writeZeroField writeField
  rw [List.length_replicate, List.append_assoc _ (List.replicate len 0),
    List.replicate_append_replicate]
  congr 2
  omega

/-- The body of an authenticator: two lengths, and two values padded to whole words. -/
def authenticatorBody (nonce ciphertext : List UInt8) : List UInt8 :=
  toBe 2 nonce.length ++ toBe 2 ciphertext.length
    ++ nonce ++ List.replicate (nextMultipleOf4 nonce.length - nonce.length) 0
    ++ ciphertext ++ List.replicate (nextMultipleOf4 ciphertext.length - ciphertext.length) 0

theorem length_authenticatorBody (nonce ciphertext : List UInt8) :
    (authenticatorBody nonce ciphertext).length =
      4 + nextMultipleOf4 nonce.length + nextMultipleOf4 ciphertext.length := by
  have := le_nextMultipleOf4 nonce.length
  have := le_nextMultipleOf4 ciphertext.length
  simp only [authenticatorBody, List.length_append, length_toBe, List.length_replicate]
  omega

theorem writeAuthenticator_eq (nonce ciphertext : List UInt8) :
    writeAuthenticator nonce ciphertext =
      writeField FieldType.ntsAuthenticator (authenticatorBody nonce ciphertext) := by
  unfold writeAuthenticator writeField
  rw [length_authenticatorBody]
  simp only [authenticatorBody, List.append_assoc]

/-! ## Reading -/

/-- The fields of a string, as many as there are. -/
def readFields (offset : Nat) (rest : List UInt8) : List Field := fieldsFrom rest.length offset rest

/-- More fuel than bytes changes nothing. -/
theorem fieldsFrom_of_le {fuel : Nat} {offset : Nat} {rest : List UInt8}
    (h : rest.length ≤ fuel) : fieldsFrom fuel offset rest = readFields offset rest := by
  induction fuel using Nat.strong_induction_on generalizing offset rest with
  | _ fuel ih =>
    unfold readFields
    cases fuel with
    | zero => rw [Nat.le_zero.mp h]
    | succ fuel =>
      cases hlen : rest.length with
      | zero =>
        unfold fieldsFrom
        exact if_pos (by omega)
      | succ n =>
        unfold fieldsFrom
        dsimp only
        split
        · rfl
        · split
          · rfl
          · next hok =>
            -- what is left is shorter than both fuels
            have hshort : (rest.drop (beNat ((rest.drop 2).take 2))).length ≤ n := by
              rw [List.length_drop]
              unfold minEfLen at hok
              omega
            rw [ih fuel (Nat.lt_succ_self _) (hshort.trans (by omega)),
              ih n (by omega) hshort]

/-- What the reader makes of a field: the body, padding included. -/
theorem readFields_writeField {fieldType offset : Nat} {body : List UInt8} (rest : List UInt8)
    (htype : fieldType < 256 ^ 2) (htotal : fieldTotal body.length < 256 ^ 2) :
    readFields offset (writeField fieldType body ++ rest) =
      ⟨fieldType, body ++ List.replicate (fieldTotal body.length - 4 - body.length) 0, offset⟩
        :: readFields (offset + fieldTotal body.length) rest := by
  have hmin := minEfLen_le_fieldTotal body.length
  have hlen : (writeField fieldType body ++ rest).length =
      fieldTotal body.length + rest.length := by
    rw [List.length_append, length_writeField]
  -- the four bytes in front, and the whole field
  have hhead : (writeField fieldType body ++ rest).take 2 = toBe 2 fieldType := by
    simp only [writeField, List.append_assoc]
    exact List.take_left' (length_toBe _ _)
  have hsize : ((writeField fieldType body ++ rest).drop 2).take 2 =
      toBe 2 (fieldTotal body.length) := by
    simp only [writeField, List.append_assoc]
    rw [List.drop_left' (length_toBe _ _)]
    exact List.take_left' (length_toBe _ _)
  have hwhole : (writeField fieldType body ++ rest).take (fieldTotal body.length) =
      writeField fieldType body := List.take_left' (length_writeField _ _)
  have hbody : (writeField fieldType body).drop 4 =
      body ++ List.replicate (fieldTotal body.length - 4 - body.length) 0 := by
    unfold writeField
    rw [List.append_assoc]
    exact List.drop_left' (by simp)
  obtain ⟨fuel, hfuel⟩ : ∃ fuel, fieldTotal body.length + rest.length = fuel + 1 :=
    ⟨fieldTotal body.length + rest.length - 1, by unfold minEfLen at hmin; omega⟩
  unfold readFields
  rw [hlen, hfuel, fieldsFrom, if_neg (by rw [hlen]; unfold minEfLen at hmin; omega)]
  dsimp only
  rw [hhead, hsize, beNat_toBe_of_lt htype, beNat_toBe_of_lt htotal, if_neg, hwhole, hbody,
    List.drop_left' (length_writeField _ _), fieldsFrom_of_le]
  · rfl
  · unfold minEfLen at hmin
    omega
  · rw [hlen]
    have := fieldTotal_mod body.length
    omega

@[simp] theorem readFields_nil (offset : Nat) : readFields offset [] = [] := rfl

/-- A body of whole words fills its field. -/
theorem readFields_writeField_of_mod {fieldType offset : Nat} {body : List UInt8}
    (rest : List UInt8) (htype : fieldType < 256 ^ 2) (hmod : body.length % 4 = 0)
    (hmin : 12 ≤ body.length) (htotal : 4 + body.length < 256 ^ 2) :
    readFields offset (writeField fieldType body ++ rest) =
      ⟨fieldType, body, offset⟩ :: readFields (offset + (4 + body.length)) rest := by
  have hsize := fieldTotal_of_mod hmod hmin
  have hpad : 4 + body.length - 4 - body.length = 0 := by omega
  rw [readFields_writeField rest htype (by rw [hsize]; exact htotal), hsize, hpad,
    List.replicate_zero, List.append_nil]

/-- Equal fields in a row are read back one by one. -/
theorem readFields_replicate {fieldType : Nat} {body : List UInt8} (n offset : Nat)
    (rest : List UInt8) (htype : fieldType < 256 ^ 2) (hmod : body.length % 4 = 0)
    (hmin : 12 ≤ body.length) (htotal : 4 + body.length < 256 ^ 2) :
    ∃ fields : List Field, fields.length = n ∧ (∀ field ∈ fields, field.fieldType = fieldType) ∧
      readFields offset ((List.replicate n (writeField fieldType body)).flatten ++ rest) =
        fields ++ readFields (offset + n * (4 + body.length)) rest := by
  induction n generalizing offset with
  | zero =>
    refine ⟨[], rfl, ?_, ?_⟩
    · intro field hfield
      cases hfield
    · rw [Nat.zero_mul]
      rfl
  | succ n ih =>
    obtain ⟨fields, hlen, htypes, hread⟩ := ih (offset + (4 + body.length))
    refine ⟨⟨fieldType, body, offset⟩ :: fields, ?_, ?_, ?_⟩
    · rw [List.length_cons, hlen]
    · intro field hfield
      rcases List.mem_cons.mp hfield with rfl | hlater
      · rfl
      · exact htypes field hlater
    · rw [List.replicate_succ, List.flatten_cons, List.append_assoc,
        readFields_writeField_of_mod _ htype hmod hmin htotal, hread, Nat.succ_mul,
        Nat.add_right_comm offset, Nat.add_assoc offset]
      rfl

/-- The fields of a packet are those after its header. -/
theorem fields_append {header : List UInt8} (h : header.length = headerLen) (rest : List UInt8) :
    fields (header ++ rest) = readFields headerLen rest := by
  unfold fields
  rw [List.drop_left' h, List.length_append, h, Nat.min_eq_left (Nat.le_add_right _ _)]
  exact fieldsFrom_of_le (Nat.le_add_left _ _)

/-- Every field read stands whole in what it was read from. -/
theorem mem_fieldsFrom {fuel offset : Nat} {rest : List UInt8} {field : Field}
    (h : field ∈ fieldsFrom fuel offset rest) :
    12 ≤ field.body.length ∧ field.body.length % 4 = 0 ∧ 4 + field.body.length ≤ rest.length := by
  induction fuel generalizing offset rest with
  | zero => cases h
  | succ fuel ih =>
    unfold fieldsFrom at h
    dsimp only at h
    split at h
    · cases h
    · split at h
      · cases h
      · next hok =>
        unfold minEfLen at hok
        rcases List.mem_cons.mp h with rfl | h
        · rw [List.length_drop, List.length_take]
          omega
        · obtain ⟨hmin, hmod, hle⟩ := ih h
          rw [List.length_drop] at hle
          omega

/-- The cookies among fields. -/
def cookiesOf (fields : List Field) : List (List UInt8) :=
  fields.filterMap fun field =>
    if field.fieldType = FieldType.ntsCookie then some field.body else none

theorem newCookies_eq (plaintext : List UInt8) :
    newCookies plaintext = cookiesOf (readFields 0 plaintext) := rfl

theorem cookiesOf_cons_cookie {field : Field} {fields : List Field}
    (h : field.fieldType = FieldType.ntsCookie) :
    cookiesOf (field :: fields) = field.body :: cookiesOf fields := by
  unfold cookiesOf
  rw [List.filterMap_cons, if_pos h]

/-! ## An authenticator -/

/-- **What was put into an authenticator is taken out of it.** -/
theorem authenticatorParts_body {nonce ciphertext : List UInt8} (hnonce : nonce ≠ [])
    (hnonceLen : nonce.length < 256 ^ 2) (hctLen : ciphertext.length < 256 ^ 2)
    (pad : List UInt8) :
    authenticatorParts (authenticatorBody nonce ciphertext ++ pad) = some (nonce, ciphertext) := by
  have hpos : 0 < nonce.length := List.length_pos_iff.mpr hnonce
  have hle := le_nextMultipleOf4 nonce.length
  have hle' := le_nextMultipleOf4 ciphertext.length
  have hlen := length_authenticatorBody nonce ciphertext
  -- the four slices the reader takes
  have hfirst : (authenticatorBody nonce ciphertext ++ pad).take 2 = toBe 2 nonce.length := by
    simp only [authenticatorBody, List.append_assoc]
    exact List.take_left' (length_toBe _ _)
  have hsecond : ((authenticatorBody nonce ciphertext ++ pad).drop 2).take 2 =
      toBe 2 ciphertext.length := by
    simp only [authenticatorBody, List.append_assoc]
    rw [List.drop_left' (length_toBe _ _)]
    exact List.take_left' (length_toBe _ _)
  have hthird : ((authenticatorBody nonce ciphertext ++ pad).drop 4).take nonce.length = nonce := by
    simp only [authenticatorBody, List.append_assoc]
    rw [← List.append_assoc (toBe 2 nonce.length), List.drop_left' (by simp)]
    exact List.take_left
  have hfourth : ((authenticatorBody nonce ciphertext ++ pad).drop
      (4 + nextMultipleOf4 nonce.length)).take ciphertext.length = ciphertext := by
    have hfront : (toBe 2 nonce.length ++ (toBe 2 ciphertext.length ++ (nonce ++
        List.replicate (nextMultipleOf4 nonce.length - nonce.length) 0))).length =
          4 + nextMultipleOf4 nonce.length := by
      simp only [List.length_append, length_toBe, List.length_replicate]
      omega
    have hsplit : authenticatorBody nonce ciphertext ++ pad =
        (toBe 2 nonce.length ++ (toBe 2 ciphertext.length ++ (nonce ++
          List.replicate (nextMultipleOf4 nonce.length - nonce.length) 0))) ++ (ciphertext ++
            (List.replicate (nextMultipleOf4 ciphertext.length - ciphertext.length) 0 ++ pad)) := by
      simp only [authenticatorBody, List.append_assoc]
    rw [hsplit, List.drop_left' hfront]
    exact List.take_left
  unfold authenticatorParts
  dsimp only
  rw [if_neg, hfirst, hsecond, beNat_toBe_of_lt hnonceLen, beNat_toBe_of_lt hctLen, hthird, hfourth,
    if_neg]
  · rw [List.length_append, hlen]
    omega
  · rw [List.length_append, hlen]
    omega

end RustyTime.Ef
