import RustyTime.Properties.Store

/-!
# A truncated store

The record log has no count and no trailer. What is left of a file that was cut loads when it is a
list of whole records, and so a cut shows unless it falls between two of them, or before the first.

* `readRecord_eq_ok` — a record that was read was there
* `loadFrom_eq_ok_iff` — what loads is a list of whole records
* `truncation_reported_iff` — of a store's own file: every cut but those
-/

namespace RustyTime

open Infra.Bytes

theorem asBytes_of_fromUtf8 {bs : List UInt8} {s : String} (h : fromUtf8 bs = some s) :
    asBytes s = bs := by
  unfold fromUtf8 String.fromUTF8? at h
  split at h
  · cases h
    rfl
  · cases h

namespace Store

open Infra.Cursor (bind_eq_ok ok_bind take_eq_ok flatMap_prefix_iff)

variable {s : Store} {collection : Collection} {key value : String}

/-! ## One record -/

/-- A record of a file: a collection's number, and strings that fit their length prefix. -/
structure Entry.Whole (e : Entry) : Prop where
  index : collections[e.index]? = some e.collection
  keyFits : (asBytes e.key).length < 2 ^ 32
  valueFits : (asBytes e.value).length < 2 ^ 32

theorem Entry.bytes_ne_nil (e : Entry) : e.bytes ≠ [] := by
  simp [Entry.bytes, record, toBe]

/-- What a reader makes of a record. -/
def Entry.entry (e : Entry) : Collection × String × String := (e.collection, e.key, e.value)

/-- A collection has one number. -/
theorem Entry.Whole.ext {e e' : Entry} (h : e.Whole) (h' : e'.Whole) (heq : e.entry = e'.entry) :
    e = e' := by
  obtain ⟨index, collection, key, value⟩ := e
  obtain ⟨index', collection', key', value'⟩ := e'
  obtain ⟨rfl, rfl, rfl⟩ := heq
  have hnodup : collections.Nodup := by decide
  have hindex : index = index' := by
    obtain ⟨hi, hget⟩ := List.getElem?_eq_some_iff.mp h.index
    obtain ⟨hi', hget'⟩ := List.getElem?_eq_some_iff.mp h'.index
    exact hnodup.getElem_inj_iff.mp (hget.trans hget'.symm)
  rw [hindex]

theorem asBytes_of_text {bs : List UInt8} {s what : String} (h : text bs what = .ok s) :
    asBytes s = bs := by
  unfold text at h
  split at h
  · next hs =>
    cases h
    exact asBytes_of_fromUtf8 hs
  · cases h

theorem collectionAt_eq_ok {index : Nat} (h : collectionAt index = .ok collection) :
    collections[index]? = some collection := by
  unfold collectionAt at h
  split at h
  · next hc =>
    cases h
    exact hc
  · cases h

/-- **A record that was read was in front**, and it was whole. -/
theorem readRecord_eq_ok {rest rest' : List UInt8}
    (h : readRecord rest = .ok ((collection, key, value), rest')) :
    ∃ e : Entry, e.Whole ∧ e.entry = (collection, key, value) ∧ rest = e.bytes ++ rest' := by
  obtain ⟨⟨index, rest₁⟩, hindex, h⟩ := bind_eq_ok.mp h
  obtain ⟨c, hcollection, h⟩ := bind_eq_ok.mp h
  obtain ⟨⟨keyLen, rest₂⟩, hkeyLen, h⟩ := bind_eq_ok.mp h
  obtain ⟨⟨keyBytes, rest₃⟩, hkey, h⟩ := bind_eq_ok.mp h
  obtain ⟨k, hkeyText, h⟩ := bind_eq_ok.mp h
  obtain ⟨⟨valueLen, rest₄⟩, hvalueLen, h⟩ := bind_eq_ok.mp h
  obtain ⟨⟨valueBytes, rest₅⟩, hvalue, h⟩ := bind_eq_ok.mp h
  obtain ⟨v, hvalueText, h⟩ := bind_eq_ok.mp h
  cases h
  obtain ⟨rfl, hindexLen⟩ := take_eq_ok hindex
  obtain ⟨rfl, hkeyLenLen⟩ := take_eq_ok hkeyLen
  obtain ⟨rfl, hkeyBytes⟩ := take_eq_ok hkey
  obtain ⟨rfl, hvalueLenLen⟩ := take_eq_ok hvalueLen
  obtain ⟨rfl, hvalueBytes⟩ := take_eq_ok hvalue
  have hk := asBytes_of_text hkeyText
  have hv := asBytes_of_text hvalueText
  -- a length prefix of four bytes is less than 2 ^ 32
  have hlt : ∀ bs : List UInt8, bs.length = 4 → beNat bs < 2 ^ 32 := by
    intro bs hbs
    have hbound := beNat_lt bs
    rw [hbs] at hbound
    exact hbound
  refine ⟨⟨beNat index, collection, key, value⟩, ⟨collectionAt_eq_ok hcollection, ?_, ?_⟩, rfl, ?_⟩
  · rw [hk, hkeyBytes]
    exact hlt _ hkeyLenLen
  · rw [hv, hvalueBytes]
    exact hlt _ hvalueLenLen
  · show _ = record (beNat index) key value ++ rest'
    rw [record, hk, hv, hkeyBytes, hvalueBytes, toBe_beNat_of_length hindexLen,
      toBe_beNat_of_length hkeyLenLen, toBe_beNat_of_length hvalueLenLen]
    simp only [List.append_assoc]

theorem Entry.Whole.read {e : Entry} (h : e.Whole) (rest : List UInt8) :
    readRecord (e.bytes ++ rest) = .ok (e.entry, rest) :=
  readRecord_record h.index h.keyFits h.valueFits rest

/-! ## A file -/

/-- Whole records, one after the other. -/
def WholeRecords (blob : List UInt8) : Prop :=
  ∃ entries : List Entry, (∀ e ∈ entries, e.Whole) ∧ blob = entries.flatMap Entry.bytes

theorem putRaw_schema (h : s.db.schema = s.fields) (collection : Collection)
    (key value : String) : ∃ s', s.putRaw collection key value = .ok s' ∧ s'.db.schema = s'.fields :=
  ⟨_, putRaw_eq h, ensureField_schema h⟩

/-- The loader takes whole records and nothing else. -/
theorem loadFrom_eq_ok_iff (h : s.db.schema = s.fields) (blob : List UInt8) :
    (∃ s', loadFrom s blob = .ok s') ↔ WholeRecords blob := by
  induction hn : blob.length using Nat.strong_induction_on generalizing s blob with
  | _ n ih =>
    by_cases hblob : blob = []
    · subst hblob
      exact iff_of_true ⟨s, loadFrom_nil⟩ ⟨[], fun e he => (nomatch he), rfl⟩
    · cases hread : readRecord blob with
      | error e =>
        refine iff_of_false ?_ ?_
        · rintro ⟨s', hload⟩
          rw [loadFrom, if_neg hblob] at hload
          split at hload
          · cases hload
          · next hok =>
            rw [hread] at hok
            cases hok
        · rintro ⟨entries, hwhole, rfl⟩
          cases entries with
          | nil => exact hblob rfl
          | cons entry entries =>
            rw [List.flatMap_cons, (hwhole entry List.mem_cons_self).read] at hread
            cases hread
      | ok out =>
        obtain ⟨⟨collection, key, value⟩, rest⟩ := out
        obtain ⟨s', hput, hschema⟩ := putRaw_schema h collection key value
        have hlen : rest.length < n := hn ▸ readRecord_length hread
        rw [loadFrom_record hblob hread hput, ih rest.length hlen hschema rest rfl]
        obtain ⟨e, he, hentry, rfl⟩ := readRecord_eq_ok hread
        constructor
        · rintro ⟨entries, hwhole, rfl⟩
          exact ⟨e :: entries, List.forall_mem_cons.mpr ⟨he, hwhole⟩, rfl⟩
        · rintro ⟨entries, hwhole, hsplit⟩
          cases entries with
          | nil => exact absurd hsplit hblob
          | cons e' entries =>
            -- the first record is the one that was read
            have hread' := (hwhole e' List.mem_cons_self).read (entries.flatMap Entry.bytes)
            rw [List.flatMap_cons] at hsplit
            rw [hsplit, hread'] at hread
            obtain ⟨-, hrest⟩ := Prod.mk.inj (Except.ok.inj hread)
            exact ⟨entries, fun x hx => hwhole x (List.mem_cons_of_mem _ hx), hrest.symm⟩

theorem openFile_eq_error_iff (blob : List UInt8) :
    (∃ e, openFile (some blob) = .error e) ↔ ¬WholeRecords blob := by
  rw [← loadFrom_eq_ok_iff (s := empty) rfl blob]
  show (∃ e, loadFrom empty blob = .error e) ↔ ¬∃ s', loadFrom empty blob = .ok s'
  cases loadFrom empty blob with
  | error e => simp
  | ok s' => simp

/-! ## A store's own file -/

/-- How far the first `m` records of a store's file reach. -/
def boundary (s : Store) (m : Nat) : Nat := ((s.log.take m).flatMap Entry.bytes).length

theorem log_whole (h : Declared s) : ∀ e ∈ s.log, e.Whole := by
  intro e he
  obtain ⟨hindex, -, hvalue⟩ := (mem_log e).mp he
  obtain ⟨hk, hv⟩ := h.fits _ _ _ hvalue
  exact ⟨hindex, hk, hv⟩

/-- What is left of the file is whole records exactly when the cut is at a boundary. -/
theorem wholeRecords_take_iff (h : Declared s) {k : Nat}
    (hk : k ≤ (s.log.flatMap Entry.bytes).length) :
    WholeRecords ((s.log.flatMap Entry.bytes).take k) ↔ ∃ m, k = s.boundary m := by
  constructor
  · rintro ⟨entries, hwhole, heq⟩
    have hfront : entries.flatMap Entry.bytes <+: s.log.flatMap Entry.bytes :=
      heq ▸ List.take_prefix k _
    have hentries := (flatMap_prefix_iff (fun e rest he => Entry.Whole.read he rest)
      (fun _ _ he he' => he.ext he') Entry.bytes_ne_nil hwhole (log_whole h)).mp hfront
    refine ⟨entries.length, ?_⟩
    rw [boundary, ← List.prefix_iff_eq_take.mp hentries, ← heq, List.length_take_of_le hk]
  · rintro ⟨m, rfl⟩
    refine ⟨s.log.take m, fun e he => log_whole h e (List.mem_of_mem_take he), ?_⟩
    conv_lhs => rw [← List.take_append_drop m s.log, List.flatMap_append]
    exact List.take_left

/-- **A cut shows unless it leaves whole records.** What is left of any file is refused exactly
when it is not a list of whole records; of the file of a store whose strings fit their length
prefixes, exactly when the cut falls inside a record. -/
theorem truncation_reported_iff {ops : List Op} {s s' : Store} {blob : List UInt8}
    (hrun : run empty ops = .ok s) (hflush : s.flush = .ok (s', blob)) {k : Nat}
    (hk : k < blob.length) :
    ((∃ e, openFile (some (blob.take k)) = .error e) ↔ ¬WholeRecords (blob.take k)) ∧
      ((∀ op ∈ ops, op.Fits) →
        ((∃ e, openFile (some (blob.take k)) = .error e) ↔ ¬∃ m, k = s.boundary m)) := by
  refine ⟨openFile_eq_error_iff _, fun hfits => ?_⟩
  obtain ⟨s₁, hrun₁, hdeclared, -⟩ := run_spec empty_declared hfits
  obtain rfl : s₁ = s := Except.ok.inj (hrun₁.symm.trans hrun)
  have hlog := flush_eq hdeclared.schema
  rw [hflush] at hlog
  obtain ⟨-, rfl⟩ := Prod.mk.inj (Except.ok.inj hlog)
  rw [openFile_eq_error_iff, wholeRecords_take_iff hdeclared hk.le]

/-- A store with one master key, written to disk. -/
theorem oneKey_flush : ∃ s blob, run empty [.put .keys "ring/master/0" "00ff"] = .ok s ∧
    s.flush = .ok (s, blob) ∧ s.log ≠ [] ∧ blob = s.log.flatMap Entry.bytes := by
  obtain ⟨s, hrun, hdeclared, hregs⟩ :=
    @run_spec _ [.put .keys "ring/master/0" "00ff"] empty_declared (by decide)
  have hvalue : s.db.registers .keys "ring/master/0" = some "00ff" := by
    rw [hregs]
    rfl
  have hmem : (⟨2, .keys, "ring/master/0", "00ff"⟩ : Entry) ∈ s.log :=
    (mem_log _).mpr ⟨rfl, hdeclared.declared _ _ _ hvalue, hvalue⟩
  exact ⟨s, _, hrun, flush_eq hdeclared.schema, List.ne_nil_of_mem hmem, rfl⟩

theorem ten_le_length_bytes (e : Entry) : 10 ≤ e.bytes.length := by
  simp only [Entry.bytes, record, List.length_append, length_toBe]
  omega

/-- A file with a record in it is longer than a byte. -/
theorem one_lt_length {entries : List Entry} (h : entries ≠ []) :
    1 < (entries.flatMap Entry.bytes).length := by
  obtain ⟨e, rest, rfl⟩ := List.exists_cons_of_ne_nil h
  have hlen := ten_le_length_bytes e
  rw [List.flatMap_cons, List.length_append]
  omega

/-- One byte of the file is refused. -/
theorem truncation_reported_first_byte :
    ∃ s blob, run empty [.put .keys "ring/master/0" "00ff"] = .ok s ∧ s.flush = .ok (s, blob) ∧
      ∃ e, openFile (some (blob.take 1)) = .error e := by
  obtain ⟨s, blob, hrun, hflush, hlog, rfl⟩ := oneKey_flush
  refine ⟨s, _, hrun, hflush, ?_⟩
  refine ((truncation_reported_iff hrun hflush (one_lt_length hlog)).2 (by decide)).mpr ?_
  rintro ⟨m, hm⟩
  rw [boundary] at hm
  rcases hcut : s.log.take m with - | ⟨e, rest⟩
  · rw [hcut] at hm
    cases hm
  · have hlen := ten_le_length_bytes e
    rw [hcut, List.flatMap_cons, List.length_append] at hm
    omega

/-- Cut before its first record, the file of a store with an entry loads as an empty store. -/
theorem truncation_unreported_empty :
    ∃ s blob, run empty [.put .keys "ring/master/0" "00ff"] = .ok s ∧ s.flush = .ok (s, blob) ∧
      0 < blob.length ∧ s.log ≠ [] ∧ ¬∃ e, openFile (some (blob.take 0)) = .error e := by
  obtain ⟨s, blob, hrun, hflush, hlog, rfl⟩ := oneKey_flush
  refine ⟨s, _, hrun, hflush, by have := one_lt_length hlog; omega, hlog, ?_⟩
  rw [openFile_eq_error_iff, not_not]
  exact ⟨[], fun e he => (nomatch he), rfl⟩

end Store

end RustyTime
