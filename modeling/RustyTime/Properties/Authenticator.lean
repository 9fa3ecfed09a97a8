import RustyTime.Daemon.Server
import RustyTime.Infra.Cursor
import RustyTime.Nts.Indexed
import RustyTime.Properties.Trailer

/-!
# An authenticator is read alike on both sides

The guards of either reader keep every index in range, so the readers are what `Ef` says without
indices, and what one hands to `aead::open` the other does too.

* `fieldsNext_ok`, `fields_ok` — the fields, without a fault
* `responseArgs_ok`, `requestArgs_ok` — one reading of an authenticator, on either side
* `cookieLoop_ok` — the payload, without a fault and to its end
* `authenticator_read_alike` — all of it
-/

namespace RustyTime.Indexed

open Infra.Bytes Infra.Cursor Infra.Iter Infra.Slice Ef

/-! ## Two bytes -/

theorem u16At_ok {xs : List UInt8} {i : Nat} (h : i + 2 ≤ xs.length) :
    u16At xs i = .ok (beNat ((xs.drop i).take 2)) := by
  have hslice : (xs.drop i).take 2 = [xs[i], xs[i + 1]] := by
    rw [List.drop_eq_getElem_cons (by omega), List.take_succ_cons,
      List.drop_eq_getElem_cons (by omega), List.take_succ_cons, List.take_zero]
  unfold u16At
  rw [index_eq_ok (by omega), ok_bind, index_eq_ok (by omega), ok_bind, hslice]
  rfl

/-! ## Fields -/

/-- **The guards of `fields` keep its indices in range.** -/
theorem fieldsNext_ok (packet : List UInt8) (cursor : Nat) :
    fieldsNext packet cursor = .ok (Ef.fieldsNext packet cursor) := by
  unfold fieldsNext Ef.fieldsNext
  by_cases hcursor : packet.length < cursor
  · have hnone : get packet cursor packet.length = none := if_neg (by omega)
    rw [hnone, if_pos hcursor]
    rfl
  · rw [get_of_le (by omega) le_rfl, List.take_length, if_neg hcursor]
    dsimp only
    by_cases hshort : (packet.drop cursor).length < 4
    · rw [if_pos hshort, if_pos hshort]
      rfl
    · rw [if_neg hshort, if_neg hshort, u16At_ok (by omega), ok_bind, u16At_ok (by omega), ok_bind,
        List.drop_zero]
      split
      · rfl
      · next hok =>
        unfold minEfLen at hok
        rw [slice_eq_ok (by omega) (by omega)]
        rfl

/-- The fields from a cursor, one step. -/
theorem fieldsFrom_next (packet : List UInt8) (fuel cursor : Nat) :
    Ef.fieldsFrom (fuel + 1) cursor (packet.drop cursor) =
      match Ef.fieldsNext packet cursor with
      | none => []
      | some (field, next) => field :: Ef.fieldsFrom fuel next (packet.drop next) := by
  rw [Ef.fieldsFrom, Ef.fieldsNext]
  by_cases hcursor : packet.length < cursor
  · rw [if_pos hcursor, List.drop_eq_nil_of_le hcursor.le]
    rfl
  · rw [if_neg hcursor]
    dsimp only
    split
    · rfl
    · split
      · rfl
      · dsimp only
        rw [← List.drop_drop]

theorem fieldsFrom_ok (packet : List UInt8) (fuel cursor : Nat) :
    fieldsFrom packet fuel cursor = .ok (Ef.fieldsFrom fuel cursor (packet.drop cursor)) := by
  induction fuel generalizing cursor with
  | zero => rfl
  | succ fuel ih =>
    rw [fieldsFrom, fieldsNext_ok, ok_bind, fieldsFrom_next]
    cases Ef.fieldsNext packet cursor with
    | none => rfl
    | some item =>
      show (fieldsFrom packet fuel item.2 >>= fun later => pure (item.1 :: later)) = _
      rw [ih, ok_bind]
      rfl

theorem fields_ok (packet : List UInt8) : fields packet = .ok (Ef.fields packet) := by
  unfold fields Ef.fields
  rw [fieldsFrom_ok]
  rcases le_total headerLen packet.length with hle | hle
  · rw [Nat.min_eq_left hle]
  · rw [Nat.min_eq_right hle, List.drop_length, List.drop_eq_nil_of_le hle]

/-- A field in a row of fields stands in the string they stand in. -/
theorem exists_rest_of_mem_located {packet tail : List UInt8} {cursor : Nat}
    {exts : List ExtensionField} {field : Field}
    (hback : (exts.map ExtensionField.bytes).flatten ++ tail = packet.drop cursor)
    (h : field ∈ located cursor exts) :
    ∃ rest, packet.drop field.offset =
      ExtensionField.bytes ⟨field.fieldType, field.body⟩ ++ rest := by
  induction exts generalizing cursor with
  | nil => cases h
  | cons first exts ih =>
    rw [List.map_cons, List.flatten_cons, List.append_assoc] at hback
    rcases List.mem_cons.mp h with rfl | hlater
    · exact ⟨_, hback.symm⟩
    · refine ih ?_ hlater
      rw [← List.drop_drop, ← hback, List.drop_left' (ExtensionField.length_bytes first)]

/-- A field of a packet, between what precedes it and what follows. -/
theorem exists_split_of_mem_fields {packet : List UInt8} {field : Field}
    (h : field ∈ Ef.fields packet) :
    field.offset ≤ packet.length ∧ ∃ rest, packet = packet.take field.offset ++
      (ExtensionField.bytes ⟨field.fieldType, field.body⟩ ++ rest) := by
  obtain ⟨items, hitems⟩ := exists_yields (fun self : ExtensionIter => self.rest.length)
    ExtensionIter.next_shrinks (extensionFields packet)
  obtain ⟨exts, tail, -, hreading⟩ := exists_reading hitems rfl
  rw [fields_eq_readFields, hreading.fueled] at h
  obtain ⟨rest, hrest⟩ := exists_rest_of_mem_located hreading.back h
  refine ⟨?_, rest, ?_⟩
  · have hlen := congrArg List.length hrest
    rw [List.length_drop, List.length_append, ExtensionField.length_bytes] at hlen
    unfold ExtensionField.total at hlen
    omega
  · rw [← hrest, List.take_append_drop]

/-! ## The authenticator -/

/-- What both sides make of an authenticator. -/
def openArgs (packet : List UInt8) (field : Field) : Option OpenArgs :=
  (authenticatorParts field.body).map fun parts => ⟨packet.take field.offset, parts.1, parts.2⟩

/-- A slice by its length. -/
theorem drop_take_eq (xs : List UInt8) (start n : Nat) :
    (xs.take (start + n)).drop start = (xs.drop start).take n := by
  rw [List.drop_take, Nat.add_sub_cancel_left]

/-- **The client's slices lie in range.** -/
theorem responseArgs_ok {packet : List UInt8} {field : Field} (h : field.offset ≤ packet.length) :
    responseArgs packet field.body field.offset = .ok (openArgs packet field) := by
  unfold responseArgs openArgs authenticatorParts
  dsimp only
  split
  · rfl
  · next hlen =>
    rw [u16At_ok (by omega), ok_bind, u16At_ok (by omega), ok_bind, List.drop_zero]
    split
    · rfl
    · next hok =>
      have hnonce := le_nextMultipleOf4 (beNat (field.body.take 2))
      rw [slice_eq_ok (by omega) (by omega), ok_bind, slice_eq_ok (by omega) (by omega), ok_bind,
        slice_eq_ok (Nat.zero_le _) h, ok_bind, drop_take_eq, drop_take_eq, List.drop_zero]
      rfl

/-- Two bytes count to 65535. -/
theorem beNat_take_two_lt (xs : List UInt8) : beNat (xs.take 2) < 2 ^ 16 := by
  refine (beNat_lt _).trans_le ?_
  refine (Nat.pow_le_pow_right (by norm_num) (List.length_take_le 2 xs)).trans ?_
  norm_num

/-- **The server's checks of them hold.** -/
theorem requestArgs_ok {request : List UInt8} {auth : Field} (h : auth.offset ≤ request.length) :
    requestArgs request auth = .ok (openArgs request auth) := by
  unfold requestArgs openArgs authenticatorParts
  dsimp only
  split
  · rfl
  · next hlen =>
    rw [u16At_ok (by omega), ok_bind, u16At_ok (by omega), ok_bind, List.drop_zero]
    have hnonce := le_nextMultipleOf4 (beNat (auth.body.take 2))
    have hadd : checkedAdd (4 + nextMultipleOf4 (beNat (auth.body.take 2)))
        (beNat ((auth.body.drop 2).take 2)) = some (4 + nextMultipleOf4 (beNat (auth.body.take 2)) +
          beNat ((auth.body.drop 2).take 2)) := by
      have h₁ := beNat_take_two_lt auth.body
      have h₂ := beNat_take_two_lt (auth.body.drop 2)
      refine if_pos ?_
      unfold nextMultipleOf4
      omega
    rw [hadd]
    refine congrArg Except.ok ?_
    simp only [Option.bind_eq_bind, Option.bind_some]
    split
    · rfl
    · next hok =>
      rw [get_of_le (by omega) (by omega), Option.bind_some, get_of_le (by omega) (by omega),
        Option.bind_some, get_of_le (Nat.zero_le _) h, Option.bind_some, drop_take_eq, drop_take_eq,
        List.drop_zero]
      rfl

/-- Of a field of the packet the server's check says what it says without indices. -/
theorem verifyClientAuthenticator_ok (aead : Aead) {request : List UInt8} {auth : Field}
    (h : auth.offset ≤ request.length) (c2s : Vector UInt8 32) :
    verifyClientAuthenticator aead request auth c2s =
      .ok (RustyTime.verifyClientAuthenticator aead request auth c2s) := by
  unfold verifyClientAuthenticator RustyTime.verifyClientAuthenticator
  rw [requestArgs_ok h, ok_bind, openArgs]
  cases authenticatorParts auth.body <;> rfl

/-- And of any other it says something. -/
theorem requestArgs_total (request : List UInt8) (auth : Field) :
    ∃ args, requestArgs request auth = .ok args := by
  unfold requestArgs
  split
  · exact ⟨none, rfl⟩
  · next hlen =>
    rw [u16At_ok (by omega), ok_bind, u16At_ok (by omega), ok_bind]
    exact ⟨_, rfl⟩

theorem verifyClientAuthenticator_total (aead : Aead) (request : List UInt8) (auth : Field)
    (c2s : Vector UInt8 32) :
    ∃ verdict, verifyClientAuthenticator aead request auth c2s = .ok verdict := by
  obtain ⟨args, hargs⟩ := requestArgs_total request auth
  unfold verifyClientAuthenticator
  rw [hargs, ok_bind]
  cases args with
  | none => exact ⟨_, rfl⟩
  | some args => exact ⟨_, rfl⟩

/-! ## The payload -/

/-- The total announced at `start` is refused. -/
def BadTotal (plaintext : List UInt8) (start total : Nat) : Prop :=
  total < minEfLen ∨ total % 4 ≠ 0 ∨ plaintext.length < start + total

theorem fieldsNext_short {plaintext : List UInt8} {start : Nat}
    (h : plaintext.length < start + 4) : Ef.fieldsNext plaintext start = none := by
  unfold Ef.fieldsNext
  split
  · rfl
  · dsimp only
    rw [if_pos (by rw [List.length_drop]; omega)]

theorem fieldsNext_bad {plaintext : List UInt8} {start : Nat} (h : start + 4 ≤ plaintext.length)
    (hbad : BadTotal plaintext start (beNat ((plaintext.drop (start + 2)).take 2))) :
    Ef.fieldsNext plaintext start = none := by
  unfold BadTotal at hbad
  unfold Ef.fieldsNext
  dsimp only
  rw [if_neg (by omega), List.length_drop, if_neg (by omega), List.drop_drop, if_pos (by omega)]

/-- The field at `start` in the indices of the loop. -/
theorem fieldsNext_good {plaintext : List UInt8} {start : Nat} (h : start + 4 ≤ plaintext.length)
    (hgood : ¬BadTotal plaintext start (beNat ((plaintext.drop (start + 2)).take 2))) :
    let total := beNat ((plaintext.drop (start + 2)).take 2)
    Ef.fieldsNext plaintext start =
      some (⟨beNat ((plaintext.drop start).take 2),
        (plaintext.take (start + total)).drop (start + 4), start⟩, start + total) := by
  unfold BadTotal at hgood
  intro total
  have hbody : ((plaintext.drop start).take total).drop 4 =
      (plaintext.take (start + total)).drop (start + 4) := by
    rw [← drop_take_eq, List.drop_drop]
  unfold Ef.fieldsNext
  dsimp only
  rw [if_neg (by omega), List.length_drop, if_neg (by omega), List.drop_drop, if_neg (by omega),
    hbody]

/-- One turn of the loop: the field at `start`, if one stands there. -/
theorem cookieLoop_step (plaintext : List UInt8) (start : Nat) (newCookies : List (List UInt8)) :
    cookieLoop plaintext start newCookies =
      match Ef.fieldsNext plaintext start with
      | none => .ok newCookies
      | some (field, next) => cookieLoop plaintext next (newCookies ++ cookiesOf [field]) := by
  rw [cookieLoop]
  by_cases hstart : start + 4 ≤ plaintext.length
  · rw [if_pos hstart, u16At_ok (by omega), ok_bind, u16At_ok (by omega), ok_bind]
    by_cases hbad : BadTotal plaintext start (beNat ((plaintext.drop (start + 2)).take 2))
    · rw [fieldsNext_bad hstart hbad]
      exact if_pos hbad
    · rw [fieldsNext_good hstart hbad]
      refine (if_neg hbad).trans ?_
      unfold BadTotal minEfLen at hbad
      dsimp only
      split
      · next hcookie =>
        rw [slice_eq_ok (by omega) (by omega), ok_bind, cookiesOf_cons_cookie hcookie]
        rfl
      · next hother =>
        have hnone : cookiesOf [(⟨beNat ((plaintext.drop start).take 2), (plaintext.take (start +
            beNat ((plaintext.drop (start + 2)).take 2))).drop (start + 4), start⟩ : Field)] =
              [] := by
          unfold cookiesOf
          rw [List.filterMap_cons, if_neg hother]
          rfl
        rw [hnone, List.append_nil]
  · rw [if_neg hstart, fieldsNext_short (by omega)]
    rfl

/-- A field read lies behind its reader. -/
theorem lt_of_fieldsNext {packet : List UInt8} {cursor next : Nat} {field : Field}
    (h : Ef.fieldsNext packet cursor = some (field, next)) : cursor < next := by
  unfold Ef.fieldsNext at h
  split at h
  · cases h
  · dsimp only at h
    split at h
    · cases h
    · split at h
      · cases h
      · next hok =>
        cases h
        unfold minEfLen at hok
        omega

/-- **The loop reads the cookies of the payload**, from any field on. By induction on the fuel of
the reader without indices. -/
theorem cookieLoop_from (plaintext : List UInt8) (fuel start : Nat)
    (newCookies : List (List UInt8)) (hfuel : plaintext.length < start + fuel) :
    cookieLoop plaintext start newCookies =
      .ok (newCookies ++ cookiesOf (Ef.fieldsFrom fuel start (plaintext.drop start))) := by
  induction fuel generalizing start newCookies with
  | zero =>
    rw [cookieLoop_step, fieldsNext_short (by omega)]
    exact congrArg Except.ok (List.append_nil _).symm
  | succ fuel ih =>
    rw [cookieLoop_step, fieldsFrom_next]
    cases hnext : Ef.fieldsNext plaintext start with
    | none => exact congrArg Except.ok (List.append_nil _).symm
    | some item =>
      obtain ⟨field, next⟩ := item
      have hlt := lt_of_fieldsNext hnext
      dsimp only
      rw [ih next _ (by omega), List.append_assoc]
      refine congrArg (fun cookies => Except.ok (newCookies ++ cookies)) ?_
      exact (List.filterMap_append ..).symm

theorem cookieLoop_ok (plaintext : List UInt8) :
    cookieLoop plaintext 0 [] = .ok (newCookies plaintext) := by
  rw [cookieLoop_from plaintext (plaintext.length + 1) 0 [] (by omega), List.drop_zero,
    fieldsFrom_of_le (Nat.le_succ _)]
  rfl

/-! ## The client -/

theorem mem_of_findFrom {expectUniqueId : List UInt8} {found : Found} {fields : List Field}
    {field : Field} (hnone : found.authenticator = none)
    (h : (findFrom expectUniqueId found fields).authenticator = some field) : field ∈ fields := by
  induction fields generalizing found with
  | nil =>
    unfold findFrom at h
    rw [hnone] at h
    cases h
  | cons first rest ih =>
    unfold findFrom at h
    dsimp only at h
    split at h
    · exact List.mem_cons_of_mem _ (ih (by exact hnone) h)
    · split at h
      · cases h
        exact List.mem_cons_self
      · exact List.mem_cons_of_mem _ (ih (by exact hnone) h)

/-- **The client's reader, without a fault.** -/
theorem verifyResponse_ok (aead : Aead) (packet : List UInt8)
    (s2cKey expectUniqueId : Vector UInt8 32) :
    verifyResponse aead packet s2cKey expectUniqueId =
      .ok (Ef.verifyResponse aead packet s2cKey expectUniqueId) := by
  unfold verifyResponse Ef.verifyResponse
  split
  · rfl
  · rw [fields_ok, ok_bind]
    dsimp only
    split
    · rfl
    · cases hfound : (findFrom expectUniqueId.toList ⟨false, none, false⟩
        (Ef.fields packet)).authenticator with
      | none => rfl
      | some field =>
        have hmem := mem_of_findFrom rfl hfound
        dsimp only
        rw [responseArgs_ok (exists_split_of_mem_fields hmem).1, ok_bind, openArgs]
        cases authenticatorParts field.body with
        | none => rfl
        | some parts =>
          dsimp only [Option.map_some]
          cases aead.decrypt s2cKey [packet.take field.offset, parts.1] parts.2 with
          | none => rfl
          | some plaintext =>
            dsimp only
            rw [cookieLoop_ok]
            rfl

/-! ## Both sides -/

/-- What the server answers, given what it hands to `aead::open`. -/
def requestVerdict (aead : Aead) (c2s : Vector UInt8 32) (args : Option OpenArgs) : Bool :=
  args.any fun given => (aead.decrypt c2s [given.aad, given.nonce] given.ciphertext).isSome

/-- What the client answers, given what it hands to `aead::open`. -/
def responseVerdict (aead : Aead) (s2cKey : Vector UInt8 32) (args : Option OpenArgs) :
    Except NtsError (List (List UInt8)) :=
  match args with
  | none => .error .malformedField
  | some given =>
    match aead.decrypt s2cKey [given.aad, given.nonce] given.ciphertext with
    | none => .error .authentication
    | some plaintext => .ok (newCookies plaintext)

/-- The server's verdict on a field is that of its reading. -/
theorem verifyClientAuthenticator_eq (aead : Aead) {request : List UInt8} {auth : Field}
    {args : Option OpenArgs} (h : requestArgs request auth = .ok args) (c2s : Vector UInt8 32) :
    verifyClientAuthenticator aead request auth c2s = .ok (requestVerdict aead c2s args) := by
  unfold verifyClientAuthenticator
  rw [h, ok_bind]
  cases args <;> rfl

/-- And the client's, once the unique identifier is found to be its own. -/
theorem verifyResponse_eq (aead : Aead) {packet : List UInt8} {field : Field}
    {args : Option OpenArgs} {s2cKey expectUniqueId : Vector UInt8 32}
    (hlong : headerLen ≤ packet.length)
    (hunique : (findFrom expectUniqueId.toList ⟨false, none, false⟩ (Ef.fields packet)).uniqueOk =
      true)
    (hfound : (findFrom expectUniqueId.toList ⟨false, none, false⟩
      (Ef.fields packet)).authenticator = some field)
    (h : responseArgs packet field.body field.offset = .ok args) :
    verifyResponse aead packet s2cKey expectUniqueId =
      .ok (responseVerdict aead s2cKey args) := by
  unfold verifyResponse
  rw [if_neg (Nat.not_lt.mpr hlong), fields_ok, ok_bind]
  dsimp only
  rw [hunique, if_neg Bool.true_eq_false.mp, hfound]
  dsimp only
  rw [h, ok_bind]
  cases args with
  | none => rfl
  | some given =>
    dsimp only [responseVerdict]
    cases aead.decrypt s2cKey [given.aad, given.nonce] given.ciphertext with
    | none => rfl
    | some plaintext =>
      dsimp only
      rw [cookieLoop_ok, ok_bind]
      rfl

/-- **Both sides read an authenticator alike**, and neither indexes out of range: of a field of the
packet they reject the body, or open the same ciphertext over the same nonce and exactly the bytes
before the field, and answer as that opens; of any bytes they come to a verdict. -/
theorem authenticator_read_alike :
    (∀ packet : List UInt8, headerLen ≤ packet.length → ∀ field ∈ Ef.fields packet,
      field.fieldType = FieldType.ntsAuthenticator →
        ∃ args, requestArgs packet field = .ok args ∧
          responseArgs packet field.body field.offset = .ok args ∧
          (∀ given, args = some given → given.aad.length = field.offset ∧ ∃ rest, packet =
            given.aad ++ (ExtensionField.bytes ⟨field.fieldType, field.body⟩ ++ rest)) ∧
          (∀ (aead : Aead) (c2s : Vector UInt8 32),
            verifyClientAuthenticator aead packet field c2s = .ok (requestVerdict aead c2s args) ∧
              RustyTime.verifyClientAuthenticator aead packet field c2s =
                requestVerdict aead c2s args) ∧
          ∀ (aead : Aead) (s2cKey expectUniqueId : Vector UInt8 32),
            let found := findFrom expectUniqueId.toList ⟨false, none, false⟩ (Ef.fields packet)
            found.uniqueOk = true → found.authenticator = some field →
              verifyResponse aead packet s2cKey expectUniqueId =
                .ok (responseVerdict aead s2cKey args)) ∧
    (∀ (aead : Aead) (request : List UInt8) (auth : Field) (c2s : Vector UInt8 32),
      ∃ verdict, verifyClientAuthenticator aead request auth c2s = .ok verdict) ∧
    (∀ (aead : Aead) (packet : List UInt8) (s2cKey expectUniqueId : Vector UInt8 32),
      verifyResponse aead packet s2cKey expectUniqueId =
        .ok (Ef.verifyResponse aead packet s2cKey expectUniqueId)) ∧
    ∀ plaintext : List UInt8, cookieLoop plaintext 0 [] = .ok (newCookies plaintext) := by
  refine ⟨fun packet hlong field hfield _ => ?_, verifyClientAuthenticator_total,
    verifyResponse_ok, cookieLoop_ok⟩
  obtain ⟨hle, rest, hsplit⟩ := exists_split_of_mem_fields hfield
  refine ⟨openArgs packet field, requestArgs_ok hle, responseArgs_ok hle, ?_, ?_,
    fun aead s2cKey expectUniqueId hunique hfound =>
      verifyResponse_eq aead hlong hunique hfound (responseArgs_ok hle)⟩
  · intro given hgiven
    obtain ⟨parts, -, rfl⟩ := Option.map_eq_some_iff.mp hgiven
    exact ⟨List.length_take_of_le hle, rest, hsplit⟩
  · intro aead c2s
    have hverdict := verifyClientAuthenticator_eq aead (requestArgs_ok hle) c2s
    exact ⟨hverdict,
      Except.ok.inj ((verifyClientAuthenticator_ok aead hle c2s).symm.trans hverdict)⟩

/-- A packet of zeros and one authenticator, a nonce of two bytes and a ciphertext of three. -/
theorem authenticator_read_alike_two :
    ∃ args, requestArgs (List.replicate 48 0 ++ writeAuthenticator [1, 2] [3, 4, 5])
        ⟨FieldType.ntsAuthenticator, [0, 2, 0, 3, 1, 2, 0, 0, 3, 4, 5, 0], 48⟩ = .ok args ∧
      responseArgs (List.replicate 48 0 ++ writeAuthenticator [1, 2] [3, 4, 5])
        [0, 2, 0, 3, 1, 2, 0, 0, 3, 4, 5, 0] 48 = .ok args ∧
      args = some ⟨List.replicate 48 0, [1, 2], [3, 4, 5]⟩ ∧
      ∀ c2s, verifyClientAuthenticator Aead.checksum
        (List.replicate 48 0 ++ writeAuthenticator [1, 2] [3, 4, 5])
          ⟨FieldType.ntsAuthenticator, [0, 2, 0, 3, 1, 2, 0, 0, 3, 4, 5, 0], 48⟩ c2s =
        .ok (requestVerdict Aead.checksum c2s args) := by
  have hfields : Ef.fields (List.replicate 48 0 ++ writeAuthenticator [1, 2] [3, 4, 5]) =
      [⟨FieldType.ntsAuthenticator, [0, 2, 0, 3, 1, 2, 0, 0, 3, 4, 5, 0], 48⟩] := by decide +kernel
  obtain ⟨args, hrequest, hresponse, -, hserver, -⟩ := authenticator_read_alike.1
    (List.replicate 48 0 ++ writeAuthenticator [1, 2] [3, 4, 5]) (by decide)
    ⟨FieldType.ntsAuthenticator, [0, 2, 0, 3, 1, 2, 0, 0, 3, 4, 5, 0], 48⟩
    (by rw [hfields]; exact List.mem_cons_self) rfl
  refine ⟨args, hrequest, hresponse, ?_, fun c2s => (hserver Aead.checksum c2s).1⟩
  have hgiven : responseArgs (List.replicate 48 0 ++ writeAuthenticator [1, 2] [3, 4, 5])
      [0, 2, 0, 3, 1, 2, 0, 0, 3, 4, 5, 0] 48 =
        .ok (some ⟨List.replicate 48 0, [1, 2], [3, 4, 5]⟩) := by decide +kernel
  rw [hgiven] at hresponse
  cases hresponse
  rfl

end RustyTime.Indexed
