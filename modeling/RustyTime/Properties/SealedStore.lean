import RustyTime.Properties.Store
import RustyTime.Properties.Text
import RustyTime.Spec.SealedStore

/-!
# Sealed entries on the map

The programs on a store act on the map of its registers, each read and write by one entry.

* `getSealed_acts`, `writeRaw_acts` — reading and writing
* `Sealed.opens` — what was sealed opens
-/

namespace RustyTime.Store

open Infra.Program

/-! ## One entry -/

theorem ensureField_stands {s : Store} {m : Contents} (h : Stands s m) (collection : Collection)
    (key : String) : Stands (s.ensureField collection key) m where
  schema := ensureField_schema h.schema
  registers := by rw [ensureField_registers, h.registers]

theorem mem_schema {s : Store} {m : Contents} (h : Stands s m) (collection : Collection)
    (key : String) : key ∈ (s.ensureField collection key).db.schema collection := by
  rw [(ensureField_stands h collection key).schema]
  exact mem_ensureField

variable {aead : Aes256Gcm} {system : StoreSystem} {m : Contents}

/-- Reading an entry declares its field. -/
theorem getSealed_run {s : Store} (h : Stands s m) (collection : Collection) (key : String) :
    (getSealed aead collection key).run s =
      Infra.Program.answer (m.entry aead collection key) (s.ensureField collection key) := by
  have hread : (s.ensureField collection key).db.readRegister collection key =
      .ok (m collection key) := by
    unfold Database.readRegister
    rw [if_pos (mem_schema h collection key), (ensureField_stands h collection key).registers]
  unfold getSealed Contents.entry
  simp only [EStateM.run_bind, EStateM.run_modify, EStateM.run_get, hread]
  cases m collection key with
  | none => rfl
  | some v =>
    show EStateM.run (if v = "" then _ else _) _ =
      Infra.Program.answer (if v = "" then _ else _) _
    by_cases hv : v = ""
    · rw [if_pos hv, if_pos hv]
      rfl
    · rw [if_neg hv, if_neg hv]
      cases openValue aead v (asBytes key) <;> rfl

/-- Reading an entry. -/
theorem getSealed_acts (aead : Aes256Gcm) (m : Contents) (collection : Collection) (key : String) :
    Acts Stands (getSealed aead collection key) m (m.entry aead collection key) m := fun s h =>
  ⟨s.ensureField collection key, getSealed_run h collection key,
    ensureField_stands h collection key⟩

/-- Writing an entry declares its field, whether the database takes it or not. -/
theorem writeRaw_run {s : Store} (h : Stands s m) (system : StoreSystem) (collection : Collection)
    (key value : String) :
    (writeRaw system collection key value).run s =
      if system.takes collection key = true then
        .ok () { s.ensureField collection key with
          db := { (s.ensureField collection key).db with
            registers := m.put collection key value } }
      else .error .sdk (s.ensureField collection key) := by
  have hput : (s.ensureField collection key).db.putRegister collection key value =
      .ok { (s.ensureField collection key).db with registers := m.put collection key value } := by
    unfold Database.putRegister Contents.put
    rw [if_pos (mem_schema h collection key), (ensureField_stands h collection key).registers]
  unfold writeRaw
  split
  · simp only [EStateM.run_bind, EStateM.run_modify, EStateM.run_get, hput]
    rfl
  · rfl

/-- Writing an entry. -/
theorem writeRaw_acts {collection : Collection} {key : String}
    (htakes : system.takes collection key = true) (value : String) :
    Acts Stands (writeRaw system collection key value) m (.ok ())
      (m.put collection key value) := by
  intro s h
  have hrun := writeRaw_run h system collection key value
  rw [if_pos htakes] at hrun
  exact ⟨_, hrun, ⟨(ensureField_stands h collection key).schema, rfl⟩⟩

/-- A write the database does not take. -/
theorem writeRaw_refused {collection : Collection} {key : String}
    (htakes : system.takes collection key = false) (value : String) :
    Acts Stands (writeRaw system collection key value) m (.error .sdk) m := by
  intro s h
  refine ⟨s.ensureField collection key, ?_, ensureField_stands h collection key⟩
  rw [writeRaw_run h, if_neg (by rw [htakes]; decide)]
  rfl

/-! ## Sealing -/

/-- A value sealed under a key. -/
def Sealed (aead : Aes256Gcm) (key : String) (plaintext : List UInt8) (value : String) : Prop :=
  ∃ nonce, sealValue aead (some nonce) plaintext (asBytes key) = .ok value

/-- **What was sealed opens**, and is no tombstone. -/
theorem Sealed.opens (hinv : aead.Inverts) {key value : String} {plaintext : List UInt8}
    (h : Sealed aead key plaintext value) :
    value ≠ "" ∧ openValue aead value (asBytes key) = .ok plaintext := by
  obtain ⟨nonce, h⟩ := h
  unfold sealValue at h
  dsimp only at h
  split at h
  · cases h
  · next ciphertext hseal =>
    cases h
    have hlen := hinv.length _ _ _ _ hseal
    have hnonce : nonce.toList.length = 12 := nonce.length_toList
    constructor
    · refine hex_ne_empty fun hnil => ?_
      have := congrArg List.length hnil
      rw [List.length_append, hnonce] at this
      simp at this
    · unfold openValue
      rw [unhex_hex]
      dsimp only
      rw [dif_neg (by rw [List.length_append, hnonce, hlen]; omega), List.drop_left' hnonce]
      have hback : (⟨((nonce.toList ++ ciphertext).take 12).toArray, by simp [hnonce]⟩ :
          Vector UInt8 12) = nonce := by
        refine Vector.toList_inj.mp ?_
        show ((nonce.toList ++ ciphertext).take 12).toArray.toList = nonce.toList
        rw [List.toList_toArray, List.take_left' hnonce]
      rw [hback, hinv.opens _ _ _ _ hseal]

/-- An accepted write. -/
theorem putSealed_acts {collection : Collection} {key : String} {plaintext : List UInt8}
    (h : Accepts aead system collection key plaintext) :
    ∃ value, Sealed aead key plaintext value ∧
      Acts Stands (putSealed aead system collection key plaintext) m (.ok ())
        (m.put collection key value) := by
  obtain ⟨hseal, htakes⟩ := h
  cases hvalue : sealValue aead (system.nonce collection key) plaintext (asBytes key) with
  | error e =>
    rw [hvalue] at hseal
    cases hseal
  | ok value =>
    refine ⟨value, ?_, ?_⟩
    · cases hnonce : system.nonce collection key with
      | none =>
        rw [hnonce] at hvalue
        cases hvalue
      | some nonce => exact ⟨nonce, by rw [← hnonce]; exact hvalue⟩
    · unfold putSealed
      rw [hvalue]
      exact .bind (.pure value) (writeRaw_acts htakes value)

/-- A write that is not accepted leaves the map as it was. -/
theorem putSealed_refused {collection : Collection} {key : String} {plaintext : List UInt8}
    (h : ¬Accepts aead system collection key plaintext) :
    ∃ e, Acts Stands (putSealed aead system collection key plaintext) m (.error e) m := by
  unfold putSealed
  cases hvalue : sealValue aead (system.nonce collection key) plaintext (asBytes key) with
  | error e => exact ⟨e, .bind_error (.throw e)⟩
  | ok value =>
    have htakes : system.takes collection key = false :=
      Bool.eq_false_iff.mpr fun htakes => h ⟨by rw [hvalue]; rfl, htakes⟩
    exact ⟨.sdk, .bind (.pure value) (writeRaw_refused htakes value)⟩

/-! ## Entries of the map -/

theorem put_self (m : Contents) (collection : Collection) (key value : String) :
    m.put collection key value collection key = some value := by
  unfold Contents.put
  rw [Function.update_self, Function.update_self]

theorem put_other (m : Contents) {collection c : Collection} {key k : String} (value : String)
    (h : ¬(c = collection ∧ k = key)) : m.put collection key value c k = m c k := by
  unfold Contents.put
  by_cases hc : c = collection
  · subst hc
    rw [Function.update_self, Function.update_of_ne fun hk => h ⟨rfl, hk⟩]
  · rw [Function.update_of_ne hc]

/-- An entry depends on its own register. -/
theorem entry_congr {m m' : Contents} {collection : Collection} {key : String}
    (h : m collection key = m' collection key) :
    m.entry aead collection key = m'.entry aead collection key := by
  unfold Contents.entry
  rw [h]

theorem entry_sealed (hinv : aead.Inverts) {collection : Collection} {key value : String}
    {plaintext : List UInt8} (h : Sealed aead key plaintext value)
    (hvalue : m collection key = some value) :
    m.entry aead collection key = .ok (some plaintext) := by
  obtain ⟨hne, hopen⟩ := h.opens hinv
  unfold Contents.entry
  rw [hvalue]
  dsimp only
  rw [if_neg hne, hopen]

theorem entry_retired {collection : Collection} {key : String}
    (h : m collection key = some "") : m.entry aead collection key = .ok (some []) := by
  unfold Contents.entry
  rw [h]
  exact if_pos rfl

/-! ## A store in order -/

theorem Stands.defined {s : Store} (h : Stands s m) : s.Defined := h.schema

theorem empty_stands : Stands Store.empty Contents.empty := ⟨rfl, rfl⟩

/-- Every value is a tombstone or sealed under its own key. -/
def Intact (aead : Aes256Gcm) (m : Contents) : Prop :=
  ∀ c k v, m c k = some v → v = "" ∨ ∃ plaintext, Sealed aead k plaintext v

theorem empty_intact : Intact aead Contents.empty := by
  intro c k v h
  cases h

theorem Intact.entry (hinv : aead.Inverts) (h : Intact aead m) (collection : Collection)
    (key : String) : ∃ value, m.entry aead collection key = .ok value := by
  cases hm : m collection key with
  | none =>
    refine ⟨none, ?_⟩
    unfold Contents.entry
    rw [hm]
  | some v =>
    rcases h collection key v hm with rfl | ⟨plaintext, hsealed⟩
    · exact ⟨some [], entry_retired hm⟩
    · exact ⟨some plaintext, entry_sealed hinv hsealed hm⟩

theorem Intact.put {collection : Collection} {key value : String} (h : Intact aead m)
    (hvalue : value = "" ∨ ∃ plaintext, Sealed aead key plaintext value) :
    Intact aead (m.put collection key value) := by
  intro c k v hv
  by_cases hkey : c = collection ∧ k = key
  · obtain ⟨rfl, rfl⟩ := hkey
    rw [put_self] at hv
    cases hv
    exact hvalue
  · rw [put_other m value hkey] at hv
    exact h c k v hv

/-- A system that accepts every write. -/
def Willing (aead : Aes256Gcm) (system : StoreSystem) : Prop :=
  ∀ collection key plaintext, Accepts aead system collection key plaintext

/-- A system that draws a nonce of zeros and takes every write. -/
def StoreSystem.zeros : StoreSystem := ⟨fun _ _ => some (Vector.replicate 12 0), fun _ _ => true⟩

theorem zeros_willing : Willing .checksum StoreSystem.zeros := fun _ _ _ => ⟨rfl, rfl⟩

end RustyTime.Store
