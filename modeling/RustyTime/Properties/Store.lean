import RustyTime.Spec.Store

/-!
# The record log restores the store

The fields declared are at least those that hold a value, so `flush` writes every value there is,
and each record reads back as the write it came from.

* `Declared` — the invariant
* `readRecord_record` — one record
* `loadFrom_entries` — the log is a list of writes
* `flush_restores` — the disk and back
* `run_restores` — every run, any number of restarts
-/

namespace RustyTime.Store

open Infra.Bytes
open Infra.Cursor (ok_bind bind_eq_ok)

variable {s : Store} {collection : Collection} {key value : String}

/-! ## One record -/

theorem take_append (front rest : List UInt8) :
    take (front ++ rest) front.length = .ok (front, rest) :=
  Infra.Cursor.take_append _ front rest

theorem take_toBe (k n : Nat) (rest : List UInt8) :
    take (toBe k n ++ rest) k = .ok (toBe k n, rest) := by
  have h := take_append (toBe k n) rest
  rwa [length_toBe] at h

theorem text_asBytes (s what : String) : text (asBytes s) what = .ok s := by
  unfold text
  rw [fromUtf8_asBytes]

/-- **A record reads back as the entry it was written for**, whatever follows it. -/
theorem readRecord_record {index : Nat} (hindex : collections[index]? = some collection)
    (hkey : (asBytes key).length < 2 ^ 32) (hvalue : (asBytes value).length < 2 ^ 32)
    (rest : List UInt8) :
    readRecord (record index key value ++ rest) = .ok ((collection, key, value), rest) := by
  have hat : collectionAt (beNat (toBe 2 index)) = .ok collection := by
    have hlt : index < 3 := (List.getElem?_eq_some_iff.mp hindex).1
    rw [beNat_toBe_of_lt (hlt.trans (by decide)), collectionAt, hindex]
  have hkeyLen : beNat (toBe 4 (asBytes key).length) = (asBytes key).length :=
    beNat_toBe_of_lt hkey
  have hvalueLen : beNat (toBe 4 (asBytes value).length) = (asBytes value).length :=
    beNat_toBe_of_lt hvalue
  -- each reader takes what the writer put in front of the rest
  simp only [readRecord, record, List.append_assoc, take_toBe, ok_bind, hat, take_append,
    hkeyLen, text_asBytes, hvalueLen]
  rfl

/-! ## The invariant -/

/-- The schema is what is declared, and every value stands in a declared field and fits its
length prefix. -/
structure Declared (s : Store) : Prop where
  schema : s.db.schema = s.fields
  declared : ∀ c k v, s.db.registers c k = some v → k ∈ s.fields c
  fits : ∀ c k v, s.db.registers c k = some v →
    (asBytes k).length < 2 ^ 32 ∧ (asBytes v).length < 2 ^ 32

theorem empty_declared : Declared empty where
  schema := rfl
  declared _ _ _ h := nomatch h
  fits _ _ _ h := nomatch h

theorem ensureField_registers : (s.ensureField collection key).db.registers = s.db.registers := by
  unfold ensureField
  split <;> rfl

/-- What is declared after a field is. -/
theorem mem_ensureField_iff {c : Collection} {k : String} :
    k ∈ (s.ensureField collection key).fields c ↔ k ∈ s.fields c ∨ c = collection ∧ k = key := by
  unfold ensureField
  split
  · next hmem =>
    refine (or_iff_left_of_imp ?_).symm
    rintro ⟨rfl, rfl⟩
    exact hmem
  · dsimp only
    by_cases hc : c = collection
    · subst hc
      rw [Function.update_self, List.mem_orderedInsert]
      simp [or_comm]
    · rw [Function.update_of_ne hc]
      exact (or_iff_left fun h => hc h.1).symm

theorem mem_ensureField : key ∈ (s.ensureField collection key).fields collection :=
  mem_ensureField_iff.mpr (.inr ⟨rfl, rfl⟩)

theorem mem_ensureField_of_mem {c : Collection} {k : String} (h : k ∈ s.fields c) :
    k ∈ (s.ensureField collection key).fields c :=
  mem_ensureField_iff.mpr (.inl h)

/-- A field is declared in the schema too. -/
theorem ensureField_schema (h : s.db.schema = s.fields) :
    (s.ensureField collection key).db.schema = (s.ensureField collection key).fields := by
  unfold ensureField
  split
  · exact h
  · simp only [Database.define, h]

theorem ensureField_declared (h : Declared s) : Declared (s.ensureField collection key) where
  schema := ensureField_schema h.schema
  declared c k v hv := by
    rw [ensureField_registers] at hv
    exact mem_ensureField_of_mem (h.declared c k v hv)
  fits c k v hv := by
    rw [ensureField_registers] at hv
    exact h.fits c k v hv

/-- Reading declares the field and nothing else. -/
theorem getRaw_eq (h : s.db.schema = s.fields) : s.getRaw collection key =
    .ok (s.ensureField collection key, s.db.registers collection key) := by
  have hmem : key ∈ (s.ensureField collection key).db.schema collection := by
    rw [ensureField_schema h]
    exact mem_ensureField
  unfold getRaw Database.readRegister
  dsimp only
  rw [if_pos hmem, ensureField_registers]
  rfl

theorem getRaw_of_mem (h : s.db.schema = s.fields) (hmem : key ∈ s.fields collection) :
    s.getRaw collection key = .ok (s, s.db.registers collection key) := by
  rw [getRaw_eq h, ensureField, if_pos hmem]

theorem value_eq (h : s.db.schema = s.fields) :
    s.value collection key = .ok (s.db.registers collection key) := by
  unfold Store.value
  rw [getRaw_eq h]
  rfl

/-- Writing declares the field and updates the map at one key. -/
theorem putRaw_eq (h : s.db.schema = s.fields) : s.putRaw collection key value =
    .ok { s.ensureField collection key with
      db := { (s.ensureField collection key).db with
        registers := Function.update s.db.registers collection
          (Function.update (s.db.registers collection) key (some value)) } } := by
  have hmem : key ∈ (s.ensureField collection key).db.schema collection := by
    rw [ensureField_schema h]
    exact mem_ensureField
  unfold putRaw Database.putRegister
  dsimp only
  rw [if_pos hmem, ensureField_registers]
  rfl

/-- A value after a write is the one written or an old one. -/
theorem of_update_registers {m : Contents} {c : Collection} {k v : String}
    (h : Function.update m collection (Function.update (m collection) key (some value)) c k =
      some v) : (c = collection ∧ k = key ∧ v = value) ∨ m c k = some v := by
  by_cases hc : c = collection
  · subst hc
    rw [Function.update_self] at h
    by_cases hk : k = key
    · subst hk
      rw [Function.update_self] at h
      exact .inl ⟨rfl, rfl, (Option.some.inj h).symm⟩
    · rw [Function.update_of_ne hk] at h
      exact .inr h
  · rw [Function.update_of_ne hc] at h
    exact .inr h

/-- A write keeps the store declared. -/
theorem putRaw_spec (h : Declared s) (hkey : (asBytes key).length < 2 ^ 32)
    (hvalue : (asBytes value).length < 2 ^ 32) :
    ∃ s', s.putRaw collection key value = .ok s' ∧ Declared s' ∧
      s'.db.registers = Function.update s.db.registers collection
        (Function.update (s.db.registers collection) key (some value)) := by
  refine ⟨_, putRaw_eq h.schema, ⟨ensureField_schema h.schema, ?_, ?_⟩, rfl⟩
  · intro c k v hv
    rcases of_update_registers hv with ⟨rfl, rfl, rfl⟩ | hold
    · exact mem_ensureField
    · exact mem_ensureField_of_mem (h.declared c k v hold)
  · intro c k v hv
    rcases of_update_registers hv with ⟨rfl, rfl, rfl⟩ | hold
    · exact ⟨hkey, hvalue⟩
    · exact h.fits c k v hold

/-! ## The log -/

/-- One entry of the log. -/
structure Entry where
  index : Nat
  collection : Collection
  key : String
  value : String

def Entry.bytes (e : Entry) : List UInt8 := record e.index e.key e.value

/-- An entry of the map `m`: its collection's number, and strings that fit. -/
structure Entry.Of (m : Contents) (e : Entry) : Prop where
  index : collections[e.index]? = some e.collection
  value : m e.collection e.key = some e.value
  keyFits : (asBytes e.key).length < 2 ^ 32
  valueFits : (asBytes e.value).length < 2 ^ 32

theorem loadFrom_nil : loadFrom s [] = .ok s := by
  rw [loadFrom, if_pos rfl]

/-- One turn of the loop. -/
theorem loadFrom_record {rest rest' : List UInt8} {s' : Store} (hne : rest ≠ [])
    (hread : readRecord rest = .ok ((collection, key, value), rest'))
    (hput : s.putRaw collection key value = .ok s') : loadFrom s rest = loadFrom s' rest' := by
  rw [loadFrom, if_neg hne]
  split
  · next e herr =>
    rw [hread] at herr
    cases herr
  · next c k v rest'' hok =>
    rw [hread] at hok
    cases hok
    rw [hput]

/-- **Loading the log of a map writes the entries of the map**, on top of what was there. -/
theorem loadFrom_entries {m : Contents} {entries : List Entry} (h : Declared s)
    (hentries : ∀ e ∈ entries, Entry.Of m e) :
    ∃ s', loadFrom s (entries.flatMap Entry.bytes) = .ok s' ∧ Declared s' ∧
      ∀ c k, (∃ e ∈ entries, e.collection = c ∧ e.key = k) ∧ s'.db.registers c k = m c k ∨
        (∀ e ∈ entries, ¬(e.collection = c ∧ e.key = k)) ∧
          s'.db.registers c k = s.db.registers c k := by
  induction entries generalizing s with
  | nil => exact ⟨s, loadFrom_nil, h, fun c k => .inr ⟨fun e he => (nomatch he), rfl⟩⟩
  | cons e entries ih =>
    have he := hentries e List.mem_cons_self
    obtain ⟨s₁, hput, hdeclared, hregs⟩ := putRaw_spec h he.keyFits he.valueFits
    obtain ⟨s', hload, hdeclared', hregs'⟩ :=
      ih hdeclared fun e hmem => hentries e (List.mem_cons_of_mem _ hmem)
    have hread := readRecord_record he.index he.keyFits he.valueFits (entries.flatMap Entry.bytes)
    have hne : record e.index e.key e.value ++ entries.flatMap Entry.bytes ≠ [] := by
      simp [record, toBe]
    refine ⟨s', (loadFrom_record hne hread hput).trans hload, hdeclared', fun c k => ?_⟩
    rcases hregs' c k with ⟨⟨e', hmem, hkey⟩, hval⟩ | ⟨hnone, hval⟩
    · exact .inl ⟨⟨e', List.mem_cons_of_mem _ hmem, hkey⟩, hval⟩
    · -- a later record would have won, so this one is the last of its key
      by_cases hkey : e.collection = c ∧ e.key = k
      · refine .inl ⟨⟨e, List.mem_cons_self, hkey⟩, ?_⟩
        obtain ⟨rfl, rfl⟩ := hkey
        rw [hval, hregs, Function.update_self, Function.update_self, he.value]
      · refine .inr ⟨?_, ?_⟩
        · intro e' hmem
          rcases List.mem_cons.mp hmem with rfl | hmem
          · exact hkey
          · exact hnone e' hmem
        · rw [hval, hregs]
          by_cases hc : c = e.collection
          · subst hc
            rw [Function.update_self, Function.update_of_ne fun hk => hkey ⟨rfl, hk.symm⟩]
          · rw [Function.update_of_ne hc]

/-! ## Flushing -/

/-- The entries of one collection. -/
def entriesOf (s : Store) (index : Nat) (collection : Collection) (keys : List String) :
    List Entry :=
  keys.filterMap fun key =>
    (s.db.registers collection key).map fun value => ⟨index, collection, key, value⟩

theorem flushKeys_eq (h : s.db.schema = s.fields) (index : Nat) {keys : List String}
    (hkeys : ∀ key ∈ keys, key ∈ s.fields collection) :
    flushKeys index collection s keys =
      .ok (s, (s.entriesOf index collection keys).flatMap Entry.bytes) := by
  induction keys with
  | nil => rfl
  | cons key keys ih =>
    have hkey := getRaw_of_mem h (hkeys key List.mem_cons_self)
    have hrest := ih fun k hk => hkeys k (List.mem_cons_of_mem _ hk)
    rw [flushKeys, hkey, ok_bind]
    dsimp only
    rw [hrest, ok_bind]
    dsimp only
    cases hv : s.db.registers collection key with
    | none =>
      have hskip : s.entriesOf index collection (key :: keys) = s.entriesOf index collection keys :=
        List.filterMap_cons_none (by rw [hv]; rfl)
      rw [hskip]
      rfl
    | some value =>
      have hwrite : s.entriesOf index collection (key :: keys) =
          ⟨index, collection, key, value⟩ :: s.entriesOf index collection keys :=
        List.filterMap_cons_some (by rw [hv]; rfl)
      rw [hwrite]
      rfl

/-- The entries of a plan. -/
def planEntries (s : Store) (plan : List (Nat × Collection × List String)) : List Entry :=
  plan.flatMap fun p => s.entriesOf p.1 p.2.1 p.2.2

theorem flushPlan_eq (h : s.db.schema = s.fields) {plan : List (Nat × Collection × List String)}
    (hplan : ∀ p ∈ plan, ∀ key ∈ p.2.2, key ∈ s.fields p.2.1) :
    flushPlan s plan = .ok (s, (s.planEntries plan).flatMap Entry.bytes) := by
  induction plan with
  | nil => rfl
  | cons p plan ih =>
    obtain ⟨index, collection, keys⟩ := p
    have hkeys := flushKeys_eq h index (hplan _ List.mem_cons_self)
    have hrest := ih fun p hp => hplan p (List.mem_cons_of_mem _ hp)
    rw [flushPlan, hkeys, ok_bind]
    dsimp only
    have hsplit : s.planEntries ((index, collection, keys) :: plan) =
        s.entriesOf index collection keys ++ s.planEntries plan := List.flatMap_cons
    rw [hrest, ok_bind, hsplit, List.flatMap_append]
    rfl

/-- What `flush` writes. -/
def log (s : Store) : List Entry :=
  s.planEntries (collections.zipIdx.map fun (c, i) => (i, c, s.fields c))

/-- Flushing changes nothing in the store: every field read is declared. -/
theorem flush_eq (h : s.db.schema = s.fields) : s.flush = .ok (s, s.log.flatMap Entry.bytes) := by
  refine flushPlan_eq h ?_
  intro p hp key hkey
  obtain ⟨⟨c, i⟩, -, rfl⟩ := List.mem_map.mp hp
  exact hkey

/-- The log lists the map. -/
theorem mem_log (e : Entry) : e ∈ s.log ↔ collections[e.index]? = some e.collection ∧
    e.key ∈ s.fields e.collection ∧ s.db.registers e.collection e.key = some e.value := by
  have hkeys : ∀ i c, e ∈ s.entriesOf i c (s.fields c) ↔
      (i = e.index ∧ c = e.collection) ∧ e.key ∈ s.fields e.collection ∧
        s.db.registers e.collection e.key = some e.value := by
    intro i c
    obtain ⟨index, collection, key, value⟩ := e
    rw [entriesOf, List.mem_filterMap]
    constructor
    · rintro ⟨k, hk, hmap⟩
      obtain ⟨v, hv, heq⟩ := Option.map_eq_some_iff.mp hmap
      cases heq
      exact ⟨⟨rfl, rfl⟩, hk, hv⟩
    · rintro ⟨⟨rfl, rfl⟩, hk, hv⟩
      exact ⟨key, hk, Option.map_eq_some_iff.mpr ⟨value, hv, rfl⟩⟩
  rw [log, planEntries, List.mem_flatMap]
  constructor
  · rintro ⟨p, hp, he⟩
    obtain ⟨⟨c, i⟩, hci, rfl⟩ := List.mem_map.mp hp
    obtain ⟨⟨rfl, rfl⟩, hrest⟩ := (hkeys i c).mp he
    exact ⟨(List.mk_mem_zipIdx_iff_getElem? ..).mp hci, hrest⟩
  · rintro ⟨hindex, hrest⟩
    refine ⟨(e.index, e.collection, s.fields e.collection), ?_, (hkeys _ _).mpr ⟨⟨rfl, rfl⟩, hrest⟩⟩
    exact List.mem_map.mpr ⟨(e.collection, e.index),
      (List.mk_mem_zipIdx_iff_getElem? ..).mpr hindex, rfl⟩

/-- **The disk and back.** Flushing a store writes a file from which it is restored whole. -/
theorem flush_restores (h : Declared s) :
    ∃ blob s', s.flush = .ok (s, blob) ∧ openFile (some blob) = .ok s' ∧ Declared s' ∧
      s'.db.registers = s.db.registers := by
  have hof : ∀ e ∈ s.log, Entry.Of s.db.registers e := by
    intro e he
    obtain ⟨hindex, -, hvalue⟩ := mem_log e |>.mp he
    obtain ⟨hk, hv⟩ := h.fits _ _ _ hvalue
    exact ⟨hindex, hvalue, hk, hv⟩
  obtain ⟨s', hload, hdeclared, hregs⟩ := loadFrom_entries empty_declared hof
  refine ⟨_, s', flush_eq h.schema, hload, hdeclared, ?_⟩
  funext c k
  rcases hregs c k with ⟨-, hval⟩ | ⟨hnone, hval⟩
  · exact hval
  · rw [hval]
    -- a value not in the log is not in the map
    cases hv : s.db.registers c k with
    | none => rfl
    | some v =>
      have hindex : ∃ i : Nat, collections[i]? = some c := by
        cases c
        · exact ⟨0, rfl⟩
        · exact ⟨1, rfl⟩
        · exact ⟨2, rfl⟩
      obtain ⟨i, hi⟩ := hindex
      have hmem : (⟨i, c, k, v⟩ : Entry) ∈ s.log :=
        (mem_log _).mpr ⟨hi, h.declared c k v hv, hv⟩
      exact absurd ⟨rfl, rfl⟩ (hnone _ hmem)

/-! ## Every run -/

/-- An operation keeps the store declared and does to its map what it should. -/
theorem step_spec {op : Op} (h : Declared s) (hfits : op.Fits) :
    ∃ s', s.step op = .ok s' ∧ Declared s' ∧
      s'.db.registers = Contents.step s.db.registers op := by
  cases op with
  | put collection key value => exact putRaw_spec h hfits.1 hfits.2
  | retire collection key => exact putRaw_spec h hfits (by decide)
  | get collection key =>
    refine ⟨s.ensureField collection key, ?_, ensureField_declared h, ensureField_registers⟩
    rw [step, getRaw_eq h.schema]
    rfl
  | reopen =>
    obtain ⟨blob, s', hflush, hopen, hdeclared, hregs⟩ := flush_restores h
    refine ⟨s', ?_, hdeclared, hregs⟩
    rw [step, hflush]
    exact hopen

theorem run_spec {ops : List Op} (h : Declared s) (hfits : ∀ op ∈ ops, op.Fits) :
    ∃ s', s.run ops = .ok s' ∧ Declared s' ∧
      s'.db.registers = Contents.run s.db.registers ops := by
  induction ops generalizing s with
  | nil => exact ⟨s, rfl, h, rfl⟩
  | cons op ops ih =>
    obtain ⟨s₁, hstep, hdeclared, hregs⟩ := step_spec h (hfits op List.mem_cons_self)
    obtain ⟨s', hrun, hdeclared', hregs'⟩ :=
      ih hdeclared fun o ho => hfits o (List.mem_cons_of_mem _ ho)
    refine ⟨s', ?_, hdeclared', ?_⟩
    · rw [run, hstep]
      exact hrun
    · rw [hregs', hregs]
      rfl

/--
**The record log restores the store.** Every run of writes, reads, retirements and restarts
succeeds and holds the map of its writes, tombstones included. Its file loads, and what is
loaded reads the same under every key of every collection, value or absence.
-/
theorem run_restores (ops : List Op) (hfits : ∀ op ∈ ops, op.Fits) :
    ∃ s blob s', run empty ops = .ok s ∧ s.flush = .ok (s, blob) ∧
      openFile (some blob) = .ok s' ∧
      ∀ collection key,
        s.value collection key = .ok (Contents.run .empty ops collection key) ∧
          s'.value collection key = s.value collection key := by
  obtain ⟨s, hrun, hdeclared, hregs⟩ := run_spec empty_declared hfits
  obtain ⟨blob, s', hflush, hopen, hdeclared', hregs'⟩ := flush_restores hdeclared
  refine ⟨s, blob, s', hrun, hflush, hopen, fun collection key => ⟨?_, ?_⟩⟩
  · rw [value_eq hdeclared.schema, hregs]
    rfl
  · rw [value_eq hdeclared.schema, value_eq hdeclared'.schema, hregs']

/-- A cookie retired over a restart, and a field only ever read. -/
def retiredCookie : List Op :=
  [.put .cookies "cookie/a/0" "00ff", .get .drift "drift/a/0", .reopen,
    .retire .cookies "cookie/a/0"]

theorem run_restores_tombstone :
    ∃ s blob s', run empty retiredCookie = .ok s ∧ s.flush = .ok (s, blob) ∧
      openFile (some blob) = .ok s' ∧ s'.value .cookies "cookie/a/0" = .ok (some "") ∧
      s'.value .drift "drift/a/0" = .ok none := by
  obtain ⟨s, blob, s', hrun, hflush, hopen, hvalue⟩ := run_restores retiredCookie (by decide)
  refine ⟨s, blob, s', hrun, hflush, hopen, ?_, ?_⟩
  · rw [(hvalue .cookies "cookie/a/0").2, (hvalue .cookies "cookie/a/0").1]
    rfl
  · rw [(hvalue .drift "drift/a/0").2, (hvalue .drift "drift/a/0").1]
    rfl

end RustyTime.Store
