import RustyTime.Nts.Ke

/-!
# Records round-trip, and a cut is seen

At a cursor the iterator finds the end, a whole record, or a part of one. What it finds depends
only on what follows the cursor, so a list of records reads back as itself, and what follows an
END_OF_MESSAGE record is never looked at.

* `next_end`, `next_record`, `next_cut` — one step
* `yields_writeRecords`, `yields_cut` — a list, and a list cut off
* `yields_append` — nothing after the end of the message matters
* `records_roundtrip` — every list, every cut, every tail
-/

namespace RustyTime

open Infra.Bytes Infra.Iter

/-! ## The type field -/

/-- The type and the critical bit come out of the two bytes they share. -/
theorem typeField_spec {recordType : UInt16} (critical : Bool) (h : recordType < 0x8000) :
    typeField critical recordType &&& 0x7FFF = recordType ∧
      (typeField critical recordType &&& 0x8000 != 0) = critical := by
  have hlt : recordType.toNat < 2 ^ 15 := h
  have hlow : recordType.toNat &&& 0x7FFF = recordType.toNat :=
    Nat.and_two_pow_sub_one_of_lt_two_pow hlt
  have hhigh : recordType.toNat &&& 0x8000 = 0 := by
    rw [← hlow, Nat.and_assoc]
    exact Nat.and_zero _
  have htoNat : (typeField critical recordType).toNat =
      recordType.toNat ||| if critical then 0x8000 else 0 := by
    unfold typeField
    rw [UInt16.toNat_or, UInt16.toNat_and]
    cases critical
    · exact congrArg (· ||| 0) hlow
    · exact congrArg (· ||| 0x8000) hlow
  constructor
  · apply UInt16.toNat_inj.mp
    rw [UInt16.toNat_and, htoNat]
    show _ &&& 0x7FFF = _
    rw [Nat.and_or_distrib_right, hlow]
    cases critical <;> exact Nat.or_zero _
  · have hbit : (typeField critical recordType &&& 0x8000).toNat =
        if critical then 0x8000 else 0 := by
      rw [UInt16.toNat_and, htoNat]
      show _ &&& 0x8000 = _
      rw [Nat.and_or_distrib_right, hhigh, Nat.zero_or]
      cases critical <;> rfl
    cases critical
    · have hzero : typeField false recordType &&& 0x8000 = 0 := UInt16.toNat_inj.mp hbit
      rw [hzero]
      rfl
    · have hset : typeField true recordType &&& 0x8000 = 0x8000 := UInt16.toNat_inj.mp hbit
      rw [hset]
      rfl

/-! ## One record on the wire -/

namespace Record

/-- The type leaves room for the critical bit, and the body fits its length. -/
structure Fits (r : Record) : Prop where
  recordType : r.recordType < 0x8000
  body : r.body.length ≤ maxRecordBody

/-- END_OF_MESSAGE. -/
def IsEnd (r : Record) : Prop := r.recordType = RecordType.endOfMessage

instance (r : Record) : Decidable r.IsEnd := inferInstanceAs (Decidable (_ = _))

/-- The record as it is written. -/
def bytes (r : Record) : List UInt8 := writeRecord [] r.critical r.recordType r.body

variable {r : Record}

theorem bytes_eq (h : r.Fits) : r.bytes =
    toBe 2 (typeField r.critical r.recordType).toNat ++ (toBe 2 r.body.length ++ r.body) := by
  unfold bytes writeRecord
  rw [Nat.min_eq_left h.body, List.take_length, List.nil_append, List.append_assoc]

theorem length_bytes (h : r.Fits) : r.bytes.length = 4 + r.body.length := by
  rw [bytes_eq h]
  simp only [List.length_append, length_toBe]
  omega

theorem body_lt (h : r.Fits) : r.body.length < 256 ^ 2 := by
  have hbody := h.body
  unfold maxRecordBody at hbody
  omega

end Record

theorem writeRecord_eq (out : List UInt8) (r : Record) :
    writeRecord out r.critical r.recordType r.body = out ++ r.bytes := by
  unfold Record.bytes writeRecord
  simp only [List.append_assoc, List.nil_append]

theorem writeRecords_eq (rs : List Record) : writeRecords rs = rs.flatMap Record.bytes := by
  have hfold : ∀ out : List UInt8, rs.foldl (fun out r =>
      writeRecord out r.critical r.recordType r.body) out = out ++ rs.flatMap Record.bytes := by
    induction rs with
    | nil =>
      intro out
      rw [List.flatMap_nil, List.append_nil]
      rfl
    | cons r rs ih =>
      intro out
      rw [List.foldl_cons, writeRecord_eq, ih, List.flatMap_cons, List.append_assoc]
  exact hfold []

/-! ## One step -/

variable {r : Record}

/-- At the end there is nothing. -/
theorem next_end {buf : List UInt8} {offset : Nat} {done : Bool}
    (h : done = true ∨ buf.length ≤ offset) : RecordIter.next ⟨buf, offset, done⟩ = none := if_pos h

/-- The first bytes of a record behind a front, each part in its slice. -/
theorem record_split (h : r.Fits) (front rest : List UInt8) :
    front ++ (r.bytes ++ rest) = front ++ (toBe 2 (typeField r.critical r.recordType).toNat ++
      (toBe 2 r.body.length ++ (r.body ++ rest))) := by
  rw [Record.bytes_eq h, List.append_assoc, List.append_assoc]

/-- A whole record is given, and the cursor moves behind it. -/
theorem next_record (h : r.Fits) (front rest : List UInt8) :
    RecordIter.next ⟨front ++ (r.bytes ++ rest), front.length, false⟩ =
      some (.ok r, ⟨front ++ (r.bytes ++ rest), front.length + r.bytes.length,
        decide r.IsEnd⟩) := by
  obtain ⟨htype, hcritical⟩ := typeField_spec r.critical h.recordType
  have hlen := Record.length_bytes h
  -- the three slices: the type field, the length and the body
  have hfirst : Infra.Slice.get (front ++ (r.bytes ++ rest)) front.length (front.length + 2) =
      some (toBe 2 (typeField r.critical r.recordType).toNat) := by
    rw [record_split h]
    exact Infra.Slice.get_middle rfl (by simp)
  have hsecond : Infra.Slice.get (front ++ (r.bytes ++ rest)) (front.length + 2)
      (front.length + 4) = some (toBe 2 r.body.length) := by
    rw [record_split h, ← List.append_assoc front]
    exact Infra.Slice.get_middle (by simp) (by simp)
  have hthird : Infra.Slice.get (front ++ (r.bytes ++ rest)) (front.length + 4)
      (front.length + 4 + r.body.length) = some r.body := by
    rw [record_split h, ← List.append_assoc front, ← List.append_assoc (front ++ _)]
    exact Infra.Slice.get_middle (by simp) (by simp)
  have htypeField : UInt16.ofNat (beNat (toBe 2 (typeField r.critical r.recordType).toNat)) =
      typeField r.critical r.recordType := by
    rw [beNat_toBe_of_lt (UInt16.toNat_lt _), UInt16.ofNat_toNat]
  have hgoes : ¬(false = true ∨ (front ++ (r.bytes ++ rest)).length ≤ front.length) := by
    rintro (hdone | hend)
    · cases hdone
    · rw [List.length_append, List.length_append, hlen] at hend
      omega
  unfold RecordIter.next
  rw [if_neg hgoes, hfirst, hsecond]
  dsimp only
  rw [beNat_toBe_of_lt (Record.body_lt h), hthird, htypeField]
  dsimp only
  rw [htype, hcritical, hlen, Nat.add_assoc]
  rfl

/-- A part of a record is a truncation. -/
theorem next_cut (h : r.Fits) (front : List UInt8) {n : Nat} (hpos : 0 < n)
    (hlt : n < r.bytes.length) :
    RecordIter.next ⟨front ++ r.bytes.take n, front.length, false⟩ =
      some (.error (.truncated front.length), ⟨front ++ r.bytes.take n, front.length, true⟩) := by
  have hlen := Record.length_bytes h
  have hbuf : (front ++ r.bytes.take n).length = front.length + n := by
    rw [List.length_append, List.length_take, Nat.min_eq_left hlt.le]
  unfold RecordIter.next
  rw [if_neg (by simp [hbuf]; omega)]
  dsimp only
  rcases Nat.lt_or_ge n 4 with hshort | hlong
  · -- the cut is inside the header
    have hsecond : Infra.Slice.get (front ++ r.bytes.take n) (front.length + 2)
        (front.length + 4) = none := Infra.Slice.get_of_lt (by omega)
    rw [hsecond]
    cases Infra.Slice.get (front ++ r.bytes.take n) front.length (front.length + 2) <;> rfl
  · -- the header is whole, the body is not
    have hsplit : r.bytes.take n = toBe 2 (typeField r.critical r.recordType).toNat ++
        (toBe 2 r.body.length ++ r.body.take (n - 4)) := by
      rw [Record.bytes_eq h, List.take_append, List.take_append, length_toBe, length_toBe,
        List.take_of_length_le (by simp; omega), List.take_of_length_le (by simp; omega)]
      rfl
    have hfirst : Infra.Slice.get (front ++ r.bytes.take n) front.length (front.length + 2) =
        some (toBe 2 (typeField r.critical r.recordType).toNat) := by
      rw [hsplit]
      exact Infra.Slice.get_middle rfl (by simp)
    have hsecond : Infra.Slice.get (front ++ r.bytes.take n) (front.length + 2)
        (front.length + 4) = some (toBe 2 r.body.length) := by
      rw [hsplit, ← List.append_assoc front]
      exact Infra.Slice.get_middle (by simp) (by simp)
    have hthird : Infra.Slice.get (front ++ r.bytes.take n) (front.length + 4)
        (front.length + 4 + r.body.length) = none := Infra.Slice.get_of_lt (by omega)
    rw [hfirst, hsecond]
    dsimp only
    rw [beNat_toBe_of_lt (Record.body_lt h), hthird]

/-! ## A list of records -/

/-- What a reader gets to see of a list: nothing after the first END_OF_MESSAGE. -/
def untilEnd : List Record → List Record
  | [] => []
  | r :: rs => if r.IsEnd then [r] else r :: untilEnd rs

/-- The end of the message, if there is one, comes last. -/
def EndLast (rs : List Record) : Prop := ∀ r ∈ rs.dropLast, ¬r.IsEnd

instance (rs : List Record) : Decidable (EndLast rs) :=
  inferInstanceAs (Decidable (∀ r ∈ rs.dropLast, ¬r.IsEnd))

theorem EndLast.tail {rs : List Record} (h : EndLast (r :: rs)) : EndLast rs := by
  cases rs with
  | nil => intro _ hmem; cases hmem
  | cons r' rs => exact fun x hx => h x (List.mem_cons_of_mem _ hx)

theorem EndLast.head {rs : List Record} (h : EndLast (r :: rs)) (hne : rs ≠ []) : ¬r.IsEnd := by
  cases rs with
  | nil => exact absurd rfl hne
  | cons r' rs => exact h r List.mem_cons_self

theorem untilEnd_of_endLast {rs : List Record} (h : EndLast rs) : untilEnd rs = rs := by
  induction rs with
  | nil => rfl
  | cons r rs ih =>
    unfold untilEnd
    split
    · next hend =>
      have hnil : rs = [] := by
        by_contra hne
        exact h.head hne hend
      rw [hnil]
    · rw [ih h.tail]

/-- A list of records reads back as far as its END_OF_MESSAGE. -/
theorem yields_from {rs : List Record} (h : ∀ r ∈ rs, r.Fits) (front : List UInt8) :
    Yields RecordIter.next ⟨front ++ rs.flatMap Record.bytes, front.length, false⟩
      ((untilEnd rs).map .ok) := by
  induction rs generalizing front with
  | nil => exact .done (next_end (.inr (by simp)))
  | cons r rs ih =>
    have hnext := next_record (h r List.mem_cons_self) front (rs.flatMap Record.bytes)
    rw [List.flatMap_cons]
    unfold untilEnd
    split
    · next hend =>
      exact .item hnext (.done (next_end (.inl (decide_eq_true hend))))
    · next hmore =>
      rw [decide_eq_false hmore] at hnext
      have hrest := ih (fun x hx => h x (List.mem_cons_of_mem _ hx)) (front ++ r.bytes)
      rw [List.append_assoc, List.length_append] at hrest
      exact .item hnext hrest

theorem yields_writeRecords {rs : List Record} (h : ∀ r ∈ rs, r.Fits) :
    Yields RecordIter.next (records (writeRecords rs)) ((untilEnd rs).map .ok) := by
  rw [writeRecords_eq]
  exact yields_from h []

/-- The items of a list cut off after `n` bytes, the first `k` records being whole. -/
def cutItems (rs : List Record) (offset n k : Nat) : List (Except RecordError Record) :=
  (rs.take k).map .ok ++
    if n = ((rs.take k).flatMap Record.bytes).length then []
    else [.error (.truncated (offset + ((rs.take k).flatMap Record.bytes).length))]

/-- A list cut off: the whole records, and a truncation where the cut is inside one. -/
theorem yields_cut {rs : List Record} (h : ∀ r ∈ rs, r.Fits) (hend : EndLast rs)
    (front : List UInt8) {n : Nat} (hn : n < (rs.flatMap Record.bytes).length) :
    ∃ k < rs.length, ((rs.take k).flatMap Record.bytes).length ≤ n ∧
      n < ((rs.take (k + 1)).flatMap Record.bytes).length ∧
      Yields RecordIter.next ⟨front ++ (rs.flatMap Record.bytes).take n, front.length, false⟩
        (cutItems rs front.length n k) := by
  induction rs generalizing front n with
  | nil => exact absurd hn (Nat.not_lt_zero _)
  | cons r rs ih =>
    have hr := h r List.mem_cons_self
    rw [List.flatMap_cons, List.length_append] at hn
    rcases Nat.lt_or_ge n r.bytes.length with hin | hout
    · -- the cut is in the first record
      refine ⟨0, Nat.succ_pos _, Nat.zero_le _, ?_, ?_⟩
      · rw [List.take_succ_cons, List.take_zero, List.flatMap_singleton]
        exact hin
      · rw [List.flatMap_cons, List.take_append_of_le_length hin.le]
        unfold cutItems
        rw [List.take_zero, List.map_nil, List.flatMap_nil, List.length_nil, Nat.add_zero,
          List.nil_append]
        split
        · next hzero =>
          exact .done (next_end (.inr (by simp [hzero])))
        · next hpos =>
          have hcut := next_cut hr front (Nat.pos_of_ne_zero hpos) hin
          exact .item hcut (.done (next_end (.inl rfl)))
    · -- it is in a later one
      have hne : rs ≠ [] := by
        rintro rfl
        simp at hn
        omega
      have hnext := next_record hr front ((rs.flatMap Record.bytes).take (n - r.bytes.length))
      rw [decide_eq_false (hend.head hne)] at hnext
      obtain ⟨k, hk, hle, hlt, hyields⟩ := ih (fun x hx => h x (List.mem_cons_of_mem _ hx))
        hend.tail (front ++ r.bytes) (n := n - r.bytes.length) (by omega)
      rw [List.append_assoc, List.length_append] at hyields
      refine ⟨k + 1, Nat.succ_lt_succ hk, ?_, ?_, ?_⟩
      · rw [List.take_succ_cons, List.flatMap_cons, List.length_append]
        omega
      · rw [List.take_succ_cons, List.flatMap_cons, List.length_append]
        omega
      · rw [List.flatMap_cons, List.take_append, List.take_of_length_le hout]
        have hitems : cutItems (r :: rs) front.length n (k + 1) =
            .ok r :: cutItems rs (front.length + r.bytes.length) (n - r.bytes.length) k := by
          unfold cutItems
          rw [List.take_succ_cons, List.map_cons, List.flatMap_cons, List.length_append,
            List.cons_append, Nat.add_assoc]
          congr 2
          have hiff : n = r.bytes.length + ((rs.take k).flatMap Record.bytes).length ↔
              n - r.bytes.length = ((rs.take k).flatMap Record.bytes).length := by omega
          simp only [hiff]
        rw [hitems]
        exact .item hnext hyields

/-! ## What follows the end of the message -/

/-- The iterator over a longer buffer. -/
def RecordIter.extend (self : RecordIter) (extra : List UInt8) : RecordIter :=
  { self with buf := self.buf ++ extra }

/-- A record found is found in a longer buffer. -/
theorem next_append {self self' : RecordIter} (h : self.next = some (.ok r, self'))
    (extra : List UInt8) : (self.extend extra).next = some (.ok r, self'.extend extra) := by
  unfold RecordIter.next at h
  split at h
  · cases h
  · next hmore =>
    split at h
    · next tb lb hfirst hsecond =>
      dsimp only at h
      split at h
      · cases h
      · next body hbody =>
        obtain ⟨hr, hself⟩ := Prod.mk.inj (Option.some.inj h)
        cases hr
        cases hself
        unfold RecordIter.next RecordIter.extend
        rw [if_neg, Infra.Slice.get_append hfirst, Infra.Slice.get_append hsecond]
        · dsimp only
          rw [Infra.Slice.get_append hbody]
        · obtain ⟨hdone, hlt⟩ := not_or.mp hmore
          refine not_or.mpr ⟨hdone, ?_⟩
          show ¬(self.buf ++ extra).length ≤ self.offset
          rw [List.length_append]
          omega
    · cases h

/-- A truncation is the last item. -/
theorem next_error {self self' : RecordIter} {e : RecordError}
    (h : self.next = some (.error e, self')) : self'.done = true := by
  unfold RecordIter.next at h
  split at h
  · cases h
  · split at h
    · dsimp only at h
      split at h
      · obtain ⟨-, rfl⟩ := Prod.mk.inj (Option.some.inj h)
        rfl
      · cases h
    · obtain ⟨-, rfl⟩ := Prod.mk.inj (Option.some.inj h)
      rfl

/-- END_OF_MESSAGE is the last item. -/
theorem next_isEnd {self self' : RecordIter} (h : self.next = some (.ok r, self')) :
    self'.done = decide r.IsEnd := by
  unfold RecordIter.next at h
  split at h
  · cases h
  · split at h
    · dsimp only at h
      split at h
      · cases h
      · obtain ⟨hr, rfl⟩ := Prod.mk.inj (Option.some.inj h)
        cases hr
        rfl
    · cases h

/-- Where the message has an end, nothing that follows the buffer is read. -/
theorem yields_append {self : RecordIter} {items : List (Except RecordError Record)}
    (h : Yields RecordIter.next self items) (hend : ∃ r : Record, .ok r ∈ items ∧ r.IsEnd)
    (extra : List UInt8) : Yields RecordIter.next (self.extend extra) items := by
  induction h with
  | done _ =>
    obtain ⟨_, hmem, -⟩ := hend
    cases hmem
  | @item self self' x items hnext hrest ih =>
    cases x with
    | error e =>
      -- there is no end behind a truncation
      obtain rfl := hrest.eq_nil (next_end (.inl (next_error hnext)))
      obtain ⟨_, hmem, -⟩ := hend
      cases List.mem_singleton.mp hmem
    | ok r =>
      refine .item (next_append hnext extra) ?_
      by_cases hr : r.IsEnd
      · have hdone : self'.done = true := (next_isEnd hnext).trans (decide_eq_true hr)
        rw [hrest.eq_nil (next_end (.inl hdone))]
        exact .done (next_end (.inl hdone))
      · apply ih
        obtain ⟨r', hmem, hr'⟩ := hend
        rcases List.mem_cons.mp hmem with heq | hmem
        · cases heq
          exact absurd hr' hr
        · exact ⟨r', hmem, hr'⟩

/-! ## The items of a buffer -/

/-- Every item uses up some of the buffer, or is the last. -/
theorem next_size {self self' : RecordIter} {x : Except RecordError Record}
    (h : self.next = some (x, self')) : self'.size < self.size := by
  unfold RecordIter.next at h
  split at h
  · cases h
  · next hmore =>
    obtain ⟨hdone, hlt⟩ := not_or.mp hmore
    have hsize : self.size = self.buf.length - self.offset := if_neg hdone
    split at h
    · dsimp only at h
      split at h
      · obtain ⟨-, rfl⟩ := Prod.mk.inj (Option.some.inj h)
        rw [hsize]
        show 0 < _
        omega
      · obtain ⟨-, rfl⟩ := Prod.mk.inj (Option.some.inj h)
        rw [hsize]
        unfold RecordIter.size
        dsimp only
        split <;> omega
    · obtain ⟨-, rfl⟩ := Prod.mk.inj (Option.some.inj h)
      rw [hsize]
      show 0 < _
      omega

theorem yields_recordItems (buf : List UInt8) :
    Yields RecordIter.next (records buf) (recordItems buf) :=
  yields_collect RecordIter.size (fun _ _ _ h => next_size h) (Nat.lt_succ_self _)

theorem recordItems_eq {buf : List UInt8} {items : List (Except RecordError Record)}
    (h : Yields RecordIter.next (records buf) items) : recordItems buf = items :=
  (yields_recordItems buf).unique h

theorem hasEndOfMessage_iff (buf : List UInt8) :
    hasEndOfMessage buf = true ↔ ∃ r : Record, .ok r ∈ recordItems buf ∧ r.IsEnd := by
  unfold hasEndOfMessage
  rw [List.any_eq_true]
  constructor
  · rintro ⟨item, hmem, hend⟩
    cases item with
    | error e => cases hend
    | ok r => exact ⟨r, hmem, beq_iff_eq.mp hend⟩
  · rintro ⟨r, hmem, hend⟩
    exact ⟨.ok r, hmem, beq_iff_eq.mpr hend⟩

theorem recordItems_append {buf : List UInt8} (h : hasEndOfMessage buf = true)
    (extra : List UInt8) : recordItems (buf ++ extra) = recordItems buf :=
  recordItems_eq (yields_append (yields_recordItems buf) ((hasEndOfMessage_iff buf).mp h) extra)

/-! ## The round trip -/

/-- Records cut at `n`: those that are whole are read, and then a truncation where the cut is inside
a record. -/
theorem yields_take {rs : List Record} (hfits : ∀ r ∈ rs, r.Fits) (hend : EndLast rs) {n : Nat}
    (hn : n < (writeRecords rs).length) : ∃ k < rs.length,
      (writeRecords (rs.take k)).length ≤ n ∧ n < (writeRecords (rs.take (k + 1))).length ∧
      Yields RecordIter.next (records ((writeRecords rs).take n))
        ((rs.take k).map .ok ++ if n = (writeRecords (rs.take k)).length then []
          else [.error (.truncated (writeRecords (rs.take k)).length)]) := by
  rw [writeRecords_eq] at hn
  obtain ⟨k, hk, hle, hlt, hyields⟩ := yields_cut hfits hend [] hn
  unfold cutItems at hyields
  simp only [List.length_nil, Nat.zero_add] at hyields
  refine ⟨k, hk, ?_, ?_, ?_⟩
  · rwa [writeRecords_eq]
  · rwa [writeRecords_eq]
  · rw [writeRecords_eq, writeRecords_eq]
    exact hyields

/--
**Records round-trip and truncation is always seen.** Records that fit, with END_OF_MESSAGE only
in last place, read back as they were written. Cut anywhere, the records that are whole are read,
and then one truncation exactly where the cut is inside a record. And once a message has its end,
nothing appended to it is read.
-/
theorem records_roundtrip (rs : List Record) (hfits : ∀ r ∈ rs, r.Fits) (hend : EndLast rs) :
    Yields RecordIter.next (records (writeRecords rs)) (rs.map .ok) ∧
      (∀ n < (writeRecords rs).length, ∃ k < rs.length,
        (writeRecords (rs.take k)).length ≤ n ∧ n < (writeRecords (rs.take (k + 1))).length ∧
        Yields RecordIter.next (records ((writeRecords rs).take n))
          ((rs.take k).map .ok ++ if n = (writeRecords (rs.take k)).length then []
            else [.error (.truncated (writeRecords (rs.take k)).length)])) ∧
      ∀ buf extra, hasEndOfMessage buf = true →
        (∀ items, Yields RecordIter.next (records buf) items →
          Yields RecordIter.next (records (buf ++ extra)) items) ∧
        hasEndOfMessage (buf ++ extra) = hasEndOfMessage buf := by
  refine ⟨?_, ?_, ?_⟩
  · have hread := yields_writeRecords hfits
    rwa [untilEnd_of_endLast hend] at hread
  · exact fun n hn => yields_take hfits hend hn
  · intro buf extra hbuf
    have hitems := recordItems_append hbuf extra
    refine ⟨?_, ?_⟩
    · intro items hyields
      exact yields_append hyields (recordItems_eq hyields ▸ (hasEndOfMessage_iff buf).mp hbuf) extra
    · unfold hasEndOfMessage
      rw [hitems]

/-- The two records of a short answer. -/
def twoRecords : List Record :=
  [⟨false, RecordType.newCookie, [1, 2, 3]⟩, ⟨true, RecordType.endOfMessage, []⟩]

theorem records_roundtrip_two :
    Yields RecordIter.next (records (writeRecords twoRecords)) (twoRecords.map .ok) :=
  (records_roundtrip twoRecords
    (fun r hr => by
      rcases List.mem_pair.mp hr with rfl | rfl
      · exact ⟨by decide, by decide⟩
      · exact ⟨by decide, by decide⟩)
    (by decide)).1

end RustyTime
