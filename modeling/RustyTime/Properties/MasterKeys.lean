import RustyTime.Daemon.MasterKeys
import RustyTime.Infra.Slots
import RustyTime.Properties.Rotation
import RustyTime.Properties.SealedStore

/-!
# Master keys over a restart

The `i`th key goes into slot `i % 3`, and a start rotates the slots in from zero on. What the ring
gets is the ring of slots read in order (`Infra/Slots.lean`), not the history of the keys.

* `Keeps` — the invariant: each slot holds the last key put into it
* `Persisted.keeps` — over any puts, loads and restarts
* `start_restores` — the ring of a start is the slots in order
* `restored_ring_iff` — when it is the ring of the history
-/

namespace RustyTime.Store

open Infra.Bytes Infra.Program Infra.Slots

variable {aead : Aes256Gcm} {system : StoreSystem} {m : Contents}

/-! ## One entry -/

/-- A declared store that holds the map `m`. -/
structure Holds (s : Store) (m : Contents) : Prop where
  declared : Declared s
  registers : s.db.registers = m

theorem Holds.stands {s : Store} (h : Holds s m) : Stands s m := ⟨h.declared.schema, h.registers⟩

theorem getSealed_holds (aead : Aes256Gcm) (m : Contents) (collection : Collection)
    (key : String) :
    Acts Holds (getSealed aead collection key) m (m.entry aead collection key) m := fun s h =>
  ⟨s.ensureField collection key, getSealed_run h.stands collection key,
    ensureField_declared h.declared, by rw [ensureField_registers, h.registers]⟩

/-- A sealed value in hexadecimal, with its nonce and its tag. -/
theorem Sealed.length (hinv : aead.Inverts) {key value : String} {plaintext : List UInt8}
    (h : Sealed aead key plaintext value) :
    (asBytes value).length = 2 * (12 + (plaintext.length + 16)) := by
  obtain ⟨nonce, h⟩ := h
  unfold sealValue at h
  dsimp only at h
  split at h
  · cases h
  · next ciphertext hseal =>
    cases h
    rw [length_asBytes_hex, List.length_append, nonce.length_toList, hinv.length _ _ _ _ hseal]

/-- A write that succeeds has put a sealed value. -/
theorem putSealed_ok {s s' : Store} (hs : Declared s) {collection : Collection} {key : String}
    {plaintext : List UInt8}
    (h : (putSealed aead system collection key plaintext).run s = .ok () s') :
    ∃ value, Sealed aead key plaintext value ∧ s.putRaw collection key value = .ok s' := by
  have hstands : Stands s s.db.registers := ⟨hs.schema, rfl⟩
  unfold putSealed at h
  cases hvalue : sealValue aead (system.nonce collection key) plaintext (asBytes key) with
  | error e =>
    rw [hvalue] at h
    cases h
  | ok value =>
    have hwrite : (writeRaw system collection key value).run s = .ok () s' := by
      rw [hvalue] at h
      exact h
    rw [writeRaw_run hstands] at hwrite
    split at hwrite
    · cases hwrite
      refine ⟨value, ?_, putRaw_eq hs.schema⟩
      cases hnonce : system.nonce collection key with
      | none =>
        rw [hnonce] at hvalue
        cases hvalue
      | some nonce => exact ⟨nonce, by rw [← hnonce]; exact hvalue⟩
    · cases hwrite

/-! ## One key -/

theorem masterField_mod (slot : Nat) : masterField (slot % masterKeySlots) = masterField slot := by
  unfold masterField
  rw [Nat.mod_mod]

theorem masterField_inj {slot slot' : Nat} (h : masterField slot = masterField slot') :
    slot % masterKeySlots = slot' % masterKeySlots :=
  (compoundKey_inj (by decide) (by decide) h).2.2

theorem masterField_fits (slot : Nat) : (asBytes (masterField slot)).length < 2 ^ 32 := by
  have hlt : slot % masterKeySlots < 3 := Nat.mod_lt _ (by decide)
  unfold masterField
  generalize slot % masterKeySlots = i at hlt ⊢
  match i, hlt with
  | 0, _ => decide
  | 1, _ => decide
  | 2, _ => decide

theorem StoredMasterKey.length_payload (key : StoredMasterKey) : key.payload.length = 36 := by
  simp [payload]

/-- **A key comes back from its entry.** -/
@[simp] theorem StoredMasterKey.ofPlain_payload (key : StoredMasterKey) :
    ofPlain key.payload = some key := by
  have hid : (toBe 4 key.id.toNat).length = 4 := length_toBe 4 _
  have hnat : beNat (toBe 4 key.id.toNat) = key.id.toNat := beNat_toBe_of_lt key.id.toNat_lt
  have hkey : (⟨(key.payload.drop 4).toArray, size_drop key.length_payload⟩ : Vector UInt8 32) =
      key.key := by
    refine Vector.toList_inj.mp ?_
    show (key.payload.drop 4).toArray.toList = key.key.toList
    rw [List.toList_toArray, payload, List.drop_left' hid]
  unfold ofPlain
  rw [dif_pos key.length_payload, hkey, payload, List.take_left' hid, hnat, UInt32.ofNat_toNat]

/-- The key of a slot. -/
def Contents.masterKey (aead : Aes256Gcm) (m : Contents) (slot : Nat) :
    Except StoreError (Option StoredMasterKey) := do
  match ← m.entry aead .keys (masterField slot) with
  | none => return none
  | some plain => return StoredMasterKey.ofPlain plain

theorem getMasterKey_acts (aead : Aes256Gcm) (m : Contents) (slot : Nat) :
    Acts Holds (getMasterKey aead slot) m (m.masterKey aead slot) m := by
  unfold getMasterKey Contents.masterKey
  refine .bind_read (getSealed_holds aead m .keys (masterField slot)) fun plain => ?_
  cases plain with
  | none => exact .pure none
  | some plain => exact .pure _

/-! ## The slots -/

/-- What a slot holds in its register. -/
def SlotHolds (aead : Aes256Gcm) (m : Contents) (slot : Nat) : Option StoredMasterKey → Prop
  | none => m .keys (masterField slot) = none
  | some key => ∃ value, m .keys (masterField slot) = some value ∧
    Sealed aead (masterField slot) key.payload value

theorem SlotHolds.congr {m' : Contents} {slot : Nat} {key : Option StoredMasterKey}
    (h : SlotHolds aead m slot key)
    (hsame : m' .keys (masterField slot) = m .keys (masterField slot)) :
    SlotHolds aead m' slot key := by
  unfold SlotHolds at h ⊢
  rw [hsame]
  exact h

theorem SlotHolds.masterKey (hinv : aead.Inverts) {slot : Nat} {key : Option StoredMasterKey}
    (h : SlotHolds aead m slot key) : m.masterKey aead slot = .ok key := by
  unfold Contents.masterKey
  cases key with
  | none =>
    have hentry : m.entry aead .keys (masterField slot) = .ok none := by
      unfold Contents.entry
      rw [show m .keys (masterField slot) = none from h]
    rw [hentry]
    rfl
  | some key =>
    obtain ⟨value, hvalue, hsealed⟩ := h
    rw [entry_sealed hinv hsealed hvalue]
    show Except.ok (StoredMasterKey.ofPlain key.payload) = _
    rw [StoredMasterKey.ofPlain_payload]

/-- Each slot holds the last key that went into it. -/
structure Keeps (aead : Aes256Gcm) (keys : List StoredMasterKey) (s : Store) : Prop where
  declared : Declared s
  slots : ∀ slot < masterKeySlots,
    SlotHolds aead s.db.registers slot (held masterKeySlots keys slot)

theorem Keeps.of_registers {keys : List StoredMasterKey} {s s' : Store} (h : Keeps aead keys s)
    (hdeclared : Declared s') (hregisters : s'.db.registers = s.db.registers) :
    Keeps aead keys s' where
  declared := hdeclared
  slots := by
    rw [hregisters]
    exact h.slots

/-- **One more key** takes the place of the one three before it. -/
theorem Keeps.put (hinv : aead.Inverts) {keys : List StoredMasterKey} {s s' : Store}
    (h : Keeps aead keys s) {key : StoredMasterKey}
    (hput : (putMasterKey aead system keys.length key).run s = .ok () s') :
    Keeps aead (keys ++ [key]) s' := by
  obtain ⟨value, hsealed, hraw⟩ := putSealed_ok h.declared hput
  have hvalue : (asBytes value).length < 2 ^ 32 := by
    rw [hsealed.length hinv, key.length_payload]
    decide
  obtain ⟨s'', hraw', hdeclared, hregisters⟩ := putRaw_spec h.declared (masterField_fits _) hvalue
  obtain rfl : s' = s'' := Except.ok.inj (hraw.symm.trans hraw')
  refine ⟨hdeclared, fun slot hslot => ?_⟩
  rw [held_concat hslot, hregisters]
  by_cases hhere : slot = keys.length % masterKeySlots
  · rw [if_pos hhere, hhere]
    unfold SlotHolds
    rw [masterField_mod]
    exact ⟨value, put_self s.db.registers .keys (masterField keys.length) value, hsealed⟩
  · rw [if_neg hhere]
    refine (h.slots slot hslot).congr (put_other s.db.registers value fun heq => hhere ?_)
    rw [← masterField_inj heq.2, Nat.mod_eq_of_lt hslot]

/-- Reading the slots. -/
theorem masterKeysOf_acts (aead : Aes256Gcm) (m : Contents) {key : Nat → Option StoredMasterKey}
    {slots : List Nat} (h : ∀ slot ∈ slots, m.masterKey aead slot = .ok (key slot))
    (out : List StoredMasterKey) :
    Acts Holds (masterKeysOf aead slots out) m (.ok (out ++ slots.filterMap key)) m := by
  induction slots generalizing out with
  | nil =>
    rw [List.filterMap_nil, List.append_nil]
    exact .pure out
  | cons slot slots ih =>
    have hread := getMasterKey_acts aead m slot
    rw [h slot List.mem_cons_self] at hread
    have hrest := fun out => ih (fun slot hslot => h slot (List.mem_cons_of_mem _ hslot)) out
    unfold masterKeysOf
    refine .bind hread ?_
    cases hkey : key slot with
    | none =>
      rw [List.filterMap_cons_none hkey]
      exact hrest out
    | some k =>
      rw [List.filterMap_cons_some hkey, List.append_cons]
      exact hrest (out ++ [k])

/-- **What is read is the slots in order.** -/
theorem Keeps.allMasterKeys (hinv : aead.Inverts) {keys : List StoredMasterKey} {s : Store}
    (h : Keeps aead keys s) :
    ∃ s', (allMasterKeys aead).run s = .ok (inOrder masterKeySlots keys) s' ∧
      Keeps aead keys s' := by
  have hread : ∀ slot ∈ List.range masterKeySlots,
      Contents.masterKey aead s.db.registers slot = .ok (held masterKeySlots keys slot) :=
    fun slot hslot => (h.slots slot (List.mem_range.1 hslot)).masterKey hinv
  obtain ⟨s', hrun, hholds⟩ :=
    masterKeysOf_acts aead s.db.registers hread [] s ⟨h.declared, rfl⟩
  exact ⟨s', hrun, h.of_registers hholds.declared hholds.registers⟩

/-! ## Persisted keys -/

/-- From `s` on the keys were put in order, the `i`th into slot `i`, with loads and restarts
anywhere between them. -/
inductive Persisted (aead : Aes256Gcm) (s : Store) : List StoredMasterKey → Store → Prop
  | start : Persisted aead s [] s
  | put {keys : List StoredMasterKey} {s₁ s₂ : Store} (system : StoreSystem)
      (key : StoredMasterKey) (before : Persisted aead s keys s₁)
      (hput : (putMasterKey aead system keys.length key).run s₁ = .ok () s₂) :
      Persisted aead s (keys ++ [key]) s₂
  | load {keys stored : List StoredMasterKey} {s₁ s₂ : Store} (before : Persisted aead s keys s₁)
      (hload : (allMasterKeys aead).run s₁ = .ok stored s₂) : Persisted aead s keys s₂
  | reopen {keys : List StoredMasterKey} {s₁ s₂ s₃ : Store} {blob : List UInt8}
      (before : Persisted aead s keys s₁) (hflush : s₁.flush = .ok (s₂, blob))
      (hopen : openFile (some blob) = .ok s₃) : Persisted aead s keys s₃

/-- **Each slot holds the last key put into it**, over any restarts. -/
theorem Persisted.keeps (hinv : aead.Inverts) {keys : List StoredMasterKey} {s s' : Store}
    (hs : Declared s) (hnone : ∀ slot, s.db.registers .keys (masterField slot) = none)
    (h : Persisted aead s keys s') : Keeps aead keys s' := by
  induction h with
  | start => exact ⟨hs, fun slot _ => by rw [held_nil]; exact hnone slot⟩
  | put system key before hput ih => exact ih.put hinv hput
  | load before hload ih =>
    obtain ⟨s', hrun, hkeeps⟩ := ih.allMasterKeys hinv
    rw [hload] at hrun
    cases hrun
    exact hkeeps
  | reopen before hflush hopen ih =>
    obtain ⟨blob, s', hflush', hopen', hdeclared, hregisters⟩ := flush_restores ih.declared
    rw [hflush] at hflush'
    cases hflush'
    rw [hopen] at hopen'
    cases hopen'
    exact ih.of_registers hdeclared hregisters

end RustyTime.Store

namespace RustyTime.ServeRing

open Infra.Slots
open Store (StoredMasterKey Persisted masterKeySlots masterField Declared)

/-! ## The ring of a start -/

/-- A stored key as a key of the ring. -/
def toMaster (k : StoredMasterKey) : MasterKey := ⟨k.id, k.key⟩

theorem toMaster_injective : Function.Injective toMaster := by
  intro a b h
  obtain ⟨hid, hkey⟩ := MasterKey.mk.inj h
  cases a
  cases b
  cases hid
  cases hkey
  rfl

theorem rotateStored_eq (ring : KeyRing) (stored : List StoredMasterKey) :
    rotateStored ring stored = ring.rotateAll (stored.map toMaster) := by
  unfold rotateStored KeyRing.rotateAll
  rw [List.foldl_map]
  rfl

/-- A ring is its keys. -/
theorem rotateStored_new (stored : List StoredMasterKey) :
    rotateStored (KeyRing.new masterKeySlots) stored =
      ⟨(window masterKeySlots stored).map toMaster, masterKeySlots⟩ := by
  have hkeys := KeyRing.keys_new_rotateAll masterKeySlots (stored.map toMaster)
  have hmax := KeyRing.maxRetained_rotateAll (KeyRing.new masterKeySlots) (stored.map toMaster)
  rw [rotateStored_eq]
  generalize (KeyRing.new masterKeySlots).rotateAll (stored.map toMaster) = ring at hkeys hmax ⊢
  obtain ⟨keys, maxRetained⟩ := ring
  dsimp only at hkeys hmax
  rw [hkeys, hmax, window, List.map_drop, List.length_map]
  rfl

variable {aead : Aes256Gcm} (system : StartSystem) (path passphrase : String)

/-- **A start rotates in the slots in order.** -/
theorem start_restores (hinv : aead.Inverts) {keys : List StoredMasterKey} {s s' s'' : Store}
    {blob : List UInt8} (hs : Declared s)
    (hnone : ∀ slot, s.db.registers .keys (masterField slot) = none)
    (h : Persisted aead s keys s') (hne : keys ≠ []) (hflush : s'.flush = .ok (s'', blob))
    (hfile : system.file = some blob) (hunlock : system.unlock passphrase = .ok aead) :
    ∃ started, loadOrCreateRing system (some path) (some passphrase) = .ok started ∧
      started.ring = ⟨(inOrder masterKeySlots keys).map toMaster, masterKeySlots⟩ := by
  have hkeeps := h.keeps hinv hs hnone
  obtain ⟨blob', s₀, hflush', hopen, hdeclared, hregisters⟩ :=
    Store.flush_restores hkeeps.declared
  rw [hflush] at hflush'
  cases hflush'
  obtain ⟨s₁, hrun, -⟩ := (hkeeps.of_registers hdeclared hregisters).allMasterKeys hinv
  have hlen := length_inOrder (n := masterKeySlots) (by decide) keys
  have hstored : inOrder masterKeySlots keys ≠ [] := by
    intro hnil
    have hpos := List.length_pos_iff.2 hne
    rw [hnil, List.length_nil] at hlen
    exact absurd hlen (Nat.lt_min.2 ⟨hpos, by decide⟩).ne
  refine ⟨⟨rotateStored (KeyRing.new masterKeySlots) (inOrder masterKeySlots keys), some s₁, none⟩,
    ?_, ?_⟩
  · unfold loadOrCreateRing
    dsimp only
    rw [hunlock]
    dsimp only
    rw [hfile, hopen]
    dsimp only
    rw [hrun]
    exact if_neg hstored
  · have hsmall : (inOrder masterKeySlots keys).length ≤ masterKeySlots := by
      rw [hlen]
      exact Nat.min_le_right _ _
    show rotateStored _ _ = _
    rw [rotateStored_new, window_of_le hsmall]

/-! ## A restart -/

/--
**A restart restores the ring while the slots are in the order of the keys.** Keys are put in
order, the `i`th into slot `i`, with loads and restarts between them, and then the server starts
from the file. The ring it gets is that of the last three keys, the last one current, exactly when
no slot was used twice, or the last slot was the last one used, or the last three keys are the
same.
-/
theorem restored_ring_iff (hinv : aead.Inverts) {keys : List StoredMasterKey} {s s' s'' : Store}
    {blob : List UInt8} (hs : Declared s)
    (hnone : ∀ slot, s.db.registers .keys (masterField slot) = none)
    (h : Persisted aead s keys s') (hne : keys ≠ []) (hflush : s'.flush = .ok (s'', blob))
    (hfile : system.file = some blob) (hunlock : system.unlock passphrase = .ok aead) :
    ∃ started, loadOrCreateRing system (some path) (some passphrase) = .ok started ∧
      ((started.ring.current = keys.getLast?.map toMaster ∧
        started.ring.keys = (keys.drop (keys.length - 3)).map toMaster ∧
        started.ring = rotateStored (KeyRing.new 3) keys) ↔
        keys.length ≤ 3 ∨ 3 ∣ keys.length ∨
          ∃ key, keys.drop (keys.length - 3) = List.replicate 3 key) := by
  obtain ⟨started, hstart, hring⟩ := start_restores system path passphrase hinv hs hnone h hne
    hflush hfile hunlock
  refine ⟨started, hstart, ?_⟩
  have hturn := inOrder_eq_window_iff Nat.prime_three keys
  rw [hring]
  refine Iff.trans ⟨?_, fun hsame => ?_⟩ hturn
  · rintro ⟨-, hkeys, -⟩
    exact List.map_injective_iff.2 toMaster_injective hkeys
  · have hslots : inOrder masterKeySlots keys = window masterKeySlots keys := hsame
    rw [hslots]
    refine ⟨?_, rfl, (rotateStored_new keys).symm⟩
    show ((window masterKeySlots keys).map toMaster).getLast? = _
    rw [List.getLast?_map, getLast?_window (by decide)]

/-! ## Two keys, and four -/

/-- Any keys can be put into an empty store. -/
theorem exists_persisted (keys : List StoredMasterKey) :
    ∃ s, Persisted .checksum Store.empty keys s := by
  induction keys using List.reverseRecOn with
  | nil => exact ⟨_, .start⟩
  | append_singleton keys key ih =>
    obtain ⟨s, h⟩ := ih
    have hkeeps := h.keeps Aes256Gcm.checksum_inverts Store.empty_declared fun _ => rfl
    obtain ⟨value, -, hacts⟩ := Store.putSealed_acts (m := s.db.registers)
      (Store.zeros_willing .keys (masterField keys.length) key.payload)
    obtain ⟨s', hrun, -⟩ := hacts s ⟨hkeeps.declared.schema, rfl⟩
    exact ⟨s', .put Store.StoreSystem.zeros key h hrun⟩

/-- A start on a file under a cipher that hides nothing. -/
def plainStart (blob : List UInt8) : StartSystem :=
  ⟨fun _ => .ok .checksum, some blob, Store.StoreSystem.zeros, none, none⟩

def plainKey (b : UInt8) : StoredMasterKey := ⟨b.toUInt32, .replicate 32 b⟩

theorem restored_ring_iff_two : ∃ s s' blob started,
    Persisted .checksum Store.empty [plainKey 11, plainKey 12] s ∧ s.flush = .ok (s', blob) ∧
      loadOrCreateRing (plainStart blob) (some "state") (some "pass") = .ok started ∧
      started.ring.current = some (toMaster (plainKey 12)) := by
  obtain ⟨s, h⟩ := exists_persisted [plainKey 11, plainKey 12]
  have hkeeps := h.keeps Aes256Gcm.checksum_inverts Store.empty_declared fun _ => rfl
  have hflush := Store.flush_eq hkeeps.declared.schema
  obtain ⟨started, hstart, hiff⟩ := restored_ring_iff (plainStart _) "state" "pass"
    Aes256Gcm.checksum_inverts Store.empty_declared (fun _ => rfl) h
    (by decide) hflush rfl rfl
  exact ⟨s, _, _, started, h, hflush, hstart, (hiff.2 (.inl (by decide))).1⟩

/-- Four keys: the fourth took slot zero, so the third is the current one after the restart. -/
theorem restart_changes_current : ∃ s s' blob started,
    Persisted .checksum Store.empty [plainKey 11, plainKey 12, plainKey 13, plainKey 14] s ∧
      s.flush = .ok (s', blob) ∧
      loadOrCreateRing (plainStart blob) (some "state") (some "pass") = .ok started ∧
      started.ring.keys = [plainKey 14, plainKey 12, plainKey 13].map toMaster ∧
      started.ring.current = some (toMaster (plainKey 13)) := by
  obtain ⟨s, h⟩ := exists_persisted [plainKey 11, plainKey 12, plainKey 13, plainKey 14]
  have hkeeps := h.keeps Aes256Gcm.checksum_inverts Store.empty_declared fun _ => rfl
  have hflush := Store.flush_eq hkeeps.declared.schema
  obtain ⟨started, hstart, hring⟩ := start_restores (plainStart _) "state" "pass"
    Aes256Gcm.checksum_inverts Store.empty_declared (fun _ => rfl) h
    (by decide) hflush rfl rfl
  exact ⟨s, _, _, started, h, hflush, hstart, by rw [hring]; rfl, by rw [hring]; rfl⟩

end RustyTime.ServeRing
