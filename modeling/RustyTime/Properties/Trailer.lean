import Mathlib.Data.List.Basic
import RustyTime.Infra.Iter
import RustyTime.Properties.Ef

/-!
# Two readers of extension fields

`extension_fields` cuts a shrinking slice, `fields` moves a cursor over the packet. Both take a
field off the front exactly where one stands there (`Framed`), so they read the same fields.

* `next_cases` — one step of the slice reader
* `fieldsNext_framed`, `fieldsNext_of_not_framed` — one step of the cursor reader
* `fields_eq_extension_fields` — the same fields in the same order, and the packet written back
-/

namespace RustyTime

open Infra.Bytes Infra.Iter

/-! ## A field on the wire -/

namespace ExtensionField

/-- The total length a field announces. -/
def total (field : ExtensionField) : Nat := 4 + field.value.length

/-- The field at its own length. -/
def bytes (field : ExtensionField) : List UInt8 :=
  toBe 2 field.fieldType ++ toBe 2 field.total ++ field.value

/-- What RFC 7822 asks of a field. -/
structure WellFormed (field : ExtensionField) : Prop where
  fieldType : field.fieldType < 256 ^ 2
  fits : field.total < 256 ^ 2
  words : field.total % 4 = 0
  minimum : 16 ≤ field.total

@[simp] theorem length_bytes (field : ExtensionField) : field.bytes.length = field.total := by
  simp only [bytes, total, List.length_append, length_toBe]

variable {field : ExtensionField}

/-- The writer adds nothing to a field of whole words. -/
theorem writeField_eq_bytes (h : field.WellFormed) :
    Ef.writeField field.fieldType field.value = field.bytes := by
  have hwords := h.words
  have hmin := h.minimum
  unfold total at hwords hmin
  have htotal : Ef.fieldTotal field.value.length = field.total :=
    Ef.fieldTotal_of_mod (by omega) (by omega)
  have hpad : field.total - 4 - field.value.length = 0 := by
    unfold total
    omega
  simp [Ef.writeField, htotal, hpad, bytes]

theorem take_two_bytes (h : field.WellFormed) (rest : List UInt8) :
    beNat ((field.bytes ++ rest).take 2) = field.fieldType := by
  simp only [bytes, List.append_assoc]
  rw [List.take_left' (length_toBe _ _), beNat_toBe_of_lt h.fieldType]

theorem announced_bytes (h : field.WellFormed) (rest : List UInt8) :
    beNat (((field.bytes ++ rest).drop 2).take 2) = field.total := by
  simp only [bytes, List.append_assoc]
  rw [List.drop_left' (length_toBe _ _), List.take_left' (length_toBe _ _),
    beNat_toBe_of_lt h.fits]

theorem value_bytes (rest : List UInt8) :
    ((field.bytes ++ rest).take field.total).drop 4 = field.value := by
  rw [List.take_left' (length_bytes field), bytes]
  exact List.drop_left' (by simp)

end ExtensionField

/-- A well-formed field stands in front of `rest`. -/
def Framed (bytes : List UInt8) : Prop :=
  ∃ field : ExtensionField, ∃ rest, field.WellFormed ∧ bytes = field.bytes ++ rest

/-- The test both readers make. -/
def AnnouncesField (bytes : List UInt8) : Prop :=
  4 ≤ bytes.length ∧ 16 ≤ beNat ((bytes.drop 2).take 2) ∧ beNat ((bytes.drop 2).take 2) % 4 = 0 ∧
    beNat ((bytes.drop 2).take 2) ≤ bytes.length

/-- What the test lets through is cut off the front whole. -/
theorem exists_bytes_of_announces {bytes : List UInt8} (h : AnnouncesField bytes) :
    ExtensionField.WellFormed
        ⟨beNat (bytes.take 2), (bytes.take (beNat ((bytes.drop 2).take 2))).drop 4⟩ ∧
      ExtensionField.bytes
          ⟨beNat (bytes.take 2), (bytes.take (beNat ((bytes.drop 2).take 2))).drop 4⟩ ++
        bytes.drop (beNat ((bytes.drop 2).take 2)) = bytes := by
  obtain ⟨hhead, hmin, hmod, hle⟩ := h
  have hsize : ((bytes.drop 2).take 2).length = 2 := by simp; omega
  have htype : (bytes.take 2).length = 2 := by simp; omega
  have hlen : ((bytes.take (beNat ((bytes.drop 2).take 2))).drop 4).length =
      beNat ((bytes.drop 2).take 2) - 4 := by
    simp
    omega
  have htotal : 4 + ((bytes.take (beNat ((bytes.drop 2).take 2))).drop 4).length =
      beNat ((bytes.drop 2).take 2) := by omega
  have hfits : beNat ((bytes.drop 2).take 2) < 256 ^ 2 := by
    simpa only [hsize] using beNat_lt ((bytes.drop 2).take 2)
  constructor
  · constructor
    · simpa only [htype] using beNat_lt (bytes.take 2)
    · simpa only [ExtensionField.total, htotal] using hfits
    · simpa only [ExtensionField.total, htotal] using hmod
    · simpa only [ExtensionField.total, htotal] using hmin
  · -- type, length, value and what follows are four slices in a row
    have hfour : bytes.take 2 ++ (bytes.drop 2).take 2 = bytes.take 4 := by
      rw [← List.take_add]
    have hvalue : bytes.take 4 ++ (bytes.take (beNat ((bytes.drop 2).take 2))).drop 4 =
        bytes.take (beNat ((bytes.drop 2).take 2)) := by
      have htake : bytes.take 4 = (bytes.take (beNat ((bytes.drop 2).take 2))).take 4 := by
        rw [List.take_take, Nat.min_eq_left (by omega)]
      rw [htake, List.take_append_drop]
    simp only [ExtensionField.bytes, ExtensionField.total, htotal]
    rw [toBe_beNat_of_length htype, toBe_beNat_of_length hsize, hfour, hvalue,
      List.take_append_drop]

theorem announces_of_framed {bytes : List UInt8} (h : Framed bytes) : AnnouncesField bytes := by
  obtain ⟨field, rest, hwf, rfl⟩ := h
  have hmin := hwf.minimum
  unfold AnnouncesField
  rw [ExtensionField.announced_bytes hwf, List.length_append, ExtensionField.length_bytes]
  exact ⟨by omega, hwf.minimum, hwf.words, by omega⟩

theorem framed_iff (bytes : List UInt8) : Framed bytes ↔ AnnouncesField bytes := by
  constructor
  · exact announces_of_framed
  · intro h
    obtain ⟨hwf, hbytes⟩ := exists_bytes_of_announces h
    exact ⟨_, _, hwf, hbytes.symm⟩

theorem not_framed_nil : ¬Framed [] := by
  rw [framed_iff]
  simp [AnnouncesField]

/-! ## One step of each reader -/

namespace ExtensionIter

theorem next_nil : next ⟨[]⟩ = none := rfl

theorem next_framed {field : ExtensionField} (h : field.WellFormed) (rest : List UInt8) :
    next ⟨field.bytes ++ rest⟩ = some (.extension field, ⟨rest⟩) := by
  have hmin := h.minimum
  have hne : field.bytes ++ rest ≠ [] := by
    intro hnil
    have := congrArg List.length hnil
    simp at this
    omega
  have htest := announces_of_framed ⟨field, rest, h, rfl⟩
  unfold AnnouncesField at htest
  unfold next
  dsimp only
  rw [if_neg hne, if_pos htest, ExtensionField.announced_bytes h, ExtensionField.take_two_bytes h,
    ExtensionField.value_bytes, List.drop_left' (ExtensionField.length_bytes field)]

theorem next_of_not_framed {bytes : List UInt8} (hne : bytes ≠ []) (h : ¬Framed bytes) :
    next ⟨bytes⟩ = some (.opaqueBytes bytes, ⟨[]⟩) := by
  rw [framed_iff, AnnouncesField] at h
  unfold next
  dsimp only
  rw [if_neg hne, if_neg h]

/-- The iterator at the end, at a field, or at anything else. -/
theorem next_cases (bytes : List UInt8) :
    bytes = [] ∨
    (∃ field : ExtensionField, ∃ rest, field.WellFormed ∧ bytes = field.bytes ++ rest ∧
      next ⟨bytes⟩ = some (.extension field, ⟨rest⟩)) ∨
    (bytes ≠ [] ∧ ¬Framed bytes ∧ next ⟨bytes⟩ = some (.opaqueBytes bytes, ⟨[]⟩)) := by
  by_cases hnil : bytes = []
  · exact .inl hnil
  · by_cases hframed : Framed bytes
    · obtain ⟨field, rest, hwf, rfl⟩ := hframed
      exact .inr (.inl ⟨field, rest, hwf, rfl, next_framed hwf rest⟩)
    · exact .inr (.inr ⟨hnil, hframed, next_of_not_framed hnil hframed⟩)

/-- Every item takes bytes off the slice. -/
theorem next_shrinks (self : ExtensionIter) (item : Trailer) (after : ExtensionIter)
    (h : next self = some (item, after)) : after.rest.length < self.rest.length := by
  rcases next_cases self.rest with hnil | ⟨field, rest, hwf, hbytes, hnext⟩ | ⟨hne, _, hnext⟩
  · have hself : self = ⟨[]⟩ := by rw [← hnil]
    rw [hself, next_nil] at h
    cases h
  · have hmin := hwf.minimum
    obtain ⟨-, rfl⟩ := Prod.mk.inj (Option.some.inj (h.symm.trans hnext))
    rw [hbytes]
    simp
    omega
  · obtain ⟨-, rfl⟩ := Prod.mk.inj (Option.some.inj (h.symm.trans hnext))
    exact List.length_pos_iff.mpr hne

end ExtensionIter

namespace Ef

variable {packet : List UInt8} {cursor : Nat}

theorem fieldsNext_framed {field : ExtensionField} {rest : List UInt8} (h : field.WellFormed)
    (hdrop : packet.drop cursor = field.bytes ++ rest) :
    fieldsNext packet cursor =
      some (⟨field.fieldType, field.value, cursor⟩, cursor + field.total) := by
  have hmin := h.minimum
  have hlen := congrArg List.length hdrop
  simp only [List.length_drop, List.length_append, ExtensionField.length_bytes] at hlen
  unfold fieldsNext
  dsimp only
  rw [if_neg (by omega), hdrop, if_neg (by simp; omega), ExtensionField.announced_bytes h, if_neg,
    ExtensionField.take_two_bytes h, ExtensionField.value_bytes]
  have hwords := h.words
  unfold minEfLen
  simp
  omega

theorem fieldsNext_of_not_framed (h : ¬Framed (packet.drop cursor)) :
    fieldsNext packet cursor = none := by
  rw [framed_iff, AnnouncesField] at h
  unfold fieldsNext minEfLen
  dsimp only
  split
  · rfl
  · split
    · rfl
    · rw [if_pos]
      omega

/-- The reader with fuel takes the same step. -/
theorem readFields_framed {field : ExtensionField} (h : field.WellFormed) (offset : Nat)
    (rest : List UInt8) :
    readFields offset (field.bytes ++ rest) =
      ⟨field.fieldType, field.value, offset⟩ :: readFields (offset + field.total) rest := by
  have hmin := h.minimum
  have hwords := h.words
  have hfits := h.fits
  unfold ExtensionField.total at hmin hwords hfits
  rw [← ExtensionField.writeField_eq_bytes h]
  exact readFields_writeField_of_mod rest h.fieldType (by omega) (by omega) hfits

theorem readFields_of_not_framed {bytes : List UInt8} (h : ¬Framed bytes) (offset : Nat) :
    readFields offset bytes = [] := by
  rw [framed_iff, AnnouncesField] at h
  unfold readFields
  cases hlen : bytes.length with
  | zero => rfl
  | succ n =>
    unfold fieldsFrom minEfLen
    dsimp only
    split
    · rfl
    · rw [if_pos]
      omega

end Ef

/-! ## Whole iterations -/

/-- The items of the slice reader: fields, and at most one opaque tail after them. -/
def trailers (exts : List ExtensionField) (tail : Option (List UInt8)) : List Trailer :=
  exts.map .extension ++ tail.toList.map .opaqueBytes

/-- Fields in a row from `cursor` on, as the cursor reader gives them. -/
def located (cursor : Nat) : List ExtensionField → List Ef.Field
  | [] => []
  | field :: exts =>
    ⟨field.fieldType, field.value, cursor⟩ :: located (cursor + field.total) exts

theorem located_map (cursor : Nat) (exts : List ExtensionField) :
    (located cursor exts).map (fun field => (field.fieldType, field.body)) =
      exts.map fun field => (field.fieldType, field.value) := by
  induction exts generalizing cursor with
  | nil => rfl
  | cons field exts ih => simp [located, ih]

/-- A field stands after all the fields before it. -/
theorem located_offset {cursor i : Nat} {exts : List ExtensionField} {field : Ef.Field}
    (h : (located cursor exts)[i]? = some field) :
    field.offset = cursor + ((exts.take i).map ExtensionField.total).sum := by
  induction exts generalizing cursor i with
  | nil => simp [located] at h
  | cons first exts ih =>
    cases i with
    | zero =>
      simp only [located, List.getElem?_cons_zero, Option.some.injEq] at h
      simp [← h]
    | succ i =>
      simp only [located, List.getElem?_cons_succ] at h
      simp [ih h, Nat.add_assoc]

/-- Both readers over what stands from `cursor` on. -/
structure Reading (packet : List UInt8) (cursor : Nat) (exts : List ExtensionField)
    (tail : Option (List UInt8)) : Prop where
  moving : Yields (Ef.fieldsNext packet) cursor (located cursor exts)
  fueled : Ef.readFields cursor (packet.drop cursor) = located cursor exts
  wellFormed : ∀ field ∈ exts, field.WellFormed
  back : (exts.map ExtensionField.bytes).flatten ++ tail.getD [] = packet.drop cursor
  last : ∀ bytes, tail = some bytes → bytes ≠ [] ∧ ¬Framed bytes

/-- Nothing well formed in front: the cursor reader ends there. -/
theorem Reading.of_not_framed {packet : List UInt8} {cursor : Nat} {tail : Option (List UInt8)}
    (h : ¬Framed (packet.drop cursor)) (hback : tail.getD [] = packet.drop cursor)
    (hlast : ∀ bytes, tail = some bytes → bytes ≠ [] ∧ ¬Framed bytes) :
    Reading packet cursor [] tail where
  moving := .done (Ef.fieldsNext_of_not_framed h)
  fueled := Ef.readFields_of_not_framed h cursor
  wellFormed := by simp
  back := by simpa using hback
  last := hlast

theorem Reading.cons {packet rest : List UInt8} {cursor : Nat} {field : ExtensionField}
    {exts : List ExtensionField} {tail : Option (List UInt8)} (hwf : field.WellFormed)
    (hdrop : packet.drop cursor = field.bytes ++ rest)
    (h : Reading packet (cursor + field.total) exts tail) :
    Reading packet cursor (field :: exts) tail := by
  have hrest : packet.drop (cursor + field.total) = rest := by
    rw [← List.drop_drop, hdrop, List.drop_left' (ExtensionField.length_bytes field)]
  constructor
  · exact .item (Ef.fieldsNext_framed hwf hdrop) h.moving
  · rw [hdrop, Ef.readFields_framed hwf, ← hrest, h.fueled]
    rfl
  · simpa [hwf] using h.wellFormed
  · rw [List.map_cons, List.flatten_cons, List.append_assoc, h.back, hrest, hdrop]
  · exact h.last

/-- By induction on what the slice reader gives. -/
theorem exists_reading {packet : List UInt8} {self : ExtensionIter} {items : List Trailer}
    (h : Yields ExtensionIter.next self items) {cursor : Nat}
    (hself : self.rest = packet.drop cursor) :
    ∃ exts tail, items = trailers exts tail ∧ Reading packet cursor exts tail := by
  induction h generalizing cursor with
  | @done self hend =>
    obtain ⟨bytes⟩ := self
    subst hself
    rcases ExtensionIter.next_cases (packet.drop cursor) with
      hnil | ⟨_, _, _, _, hnext⟩ | ⟨_, _, hnext⟩
    · refine ⟨[], none, rfl, .of_not_framed ?_ ?_ ?_⟩
      · rw [hnil]
        exact not_framed_nil
      · simp [hnil]
      · simp
    · simp [hend] at hnext
    · simp [hend] at hnext
  | @item self after item items hnext hrest ih =>
    obtain ⟨bytes⟩ := self
    subst hself
    rcases ExtensionIter.next_cases (packet.drop cursor) with
      hnil | ⟨field, rest, hwf, hdrop, hfield⟩ | ⟨hne, hframed, hopaque⟩
    · simp [hnil, ExtensionIter.next_nil] at hnext
    · obtain ⟨rfl, rfl⟩ := Prod.mk.inj (Option.some.inj (hnext.symm.trans hfield))
      have hafter : packet.drop (cursor + field.total) = rest := by
        rw [← List.drop_drop, hdrop, List.drop_left' (ExtensionField.length_bytes field)]
      obtain ⟨exts, tail, rfl, hreading⟩ := ih hafter.symm
      exact ⟨field :: exts, tail, rfl, hreading.cons hwf hdrop⟩
    · obtain ⟨rfl, rfl⟩ := Prod.mk.inj (Option.some.inj (hnext.symm.trans hopaque))
      -- after the tail the slice is empty
      obtain rfl := hrest.eq_nil ExtensionIter.next_nil
      refine ⟨[], some (packet.drop cursor), rfl, .of_not_framed hframed rfl ?_⟩
      rintro _ ⟨rfl⟩
      exact ⟨hne, hframed⟩

theorem Ef.fields_eq_readFields (packet : List UInt8) :
    Ef.fields packet = Ef.readFields headerLen (packet.drop headerLen) := by
  unfold Ef.fields
  rw [Ef.fieldsFrom_of_le (by simp)]
  by_cases hle : headerLen ≤ packet.length
  · rw [Nat.min_eq_left hle]
  · have hnil : packet.drop headerLen = [] := List.drop_eq_nil_of_le (by omega)
    simp [hnil]

/-- Every field read is well formed. -/
theorem Ef.wellFormed_of_mem_fields {packet : List UInt8} {field : Ef.Field}
    (h : field ∈ Ef.fields packet) :
    ExtensionField.WellFormed ⟨field.fieldType, field.body⟩ := by
  obtain ⟨items, hitems⟩ := exists_yields (fun self : ExtensionIter => self.rest.length)
    ExtensionIter.next_shrinks (extensionFields packet)
  obtain ⟨exts, tail, -, hreading⟩ := exists_reading hitems rfl
  rw [Ef.fields_eq_readFields, hreading.fueled] at h
  have hpair := List.mem_map_of_mem (f := fun f : Ef.Field => (f.fieldType, f.body)) h
  rw [located_map] at hpair
  obtain ⟨ext, hext, heq⟩ := List.mem_map.mp hpair
  obtain ⟨htype, hbody⟩ := Prod.mk.inj heq
  rw [← htype, ← hbody]
  exact hreading.wellFormed ext hext

/-- Before the header's end there is nothing to read, wherever the cursor stands. -/
theorem Ef.fieldsNext_short {packet : List UInt8} (h : packet.length < headerLen) :
    Yields (Ef.fieldsNext packet) (min headerLen packet.length) [] := by
  apply Yields.done
  apply Ef.fieldsNext_of_not_framed
  rw [List.drop_eq_nil_of_le (by omega)]
  exact not_framed_nil

/-- **The two readers of extension fields are one.** Both end; `fields` gives the fields of
`extension_fields` in their order, each at the end of those before it; the fields written back
and the opaque tail are what follows the header; and the tail, at most one and last, does not
begin with a field. -/
theorem fields_eq_extension_fields (packet : List UInt8) :
    ∃ exts : List ExtensionField, ∃ tail : Option (List UInt8),
      Yields ExtensionIter.next (extensionFields packet)
        (exts.map .extension ++ tail.toList.map .opaqueBytes) ∧
      Yields (Ef.fieldsNext packet) (min headerLen packet.length) (Ef.fields packet) ∧
      (Ef.fields packet).map (fun field => (field.fieldType, field.body)) =
        exts.map (fun field => (field.fieldType, field.value)) ∧
      (∀ i field, (Ef.fields packet)[i]? = some field →
        field.offset = 48 + ((exts.take i).map fun before => 4 + before.value.length).sum) ∧
      (∀ field ∈ exts, Ef.writeField field.fieldType field.value = field.bytes) ∧
      (exts.map ExtensionField.bytes).flatten ++ tail.getD [] = packet.drop 48 ∧
      ∀ bytes, tail = some bytes → bytes ≠ [] ∧ ¬Framed bytes := by
  obtain ⟨items, hitems⟩ := exists_yields (fun self : ExtensionIter => self.rest.length)
    ExtensionIter.next_shrinks (extensionFields packet)
  obtain ⟨exts, tail, rfl, hreading⟩ := exists_reading hitems rfl
  have hfields : Ef.fields packet = located headerLen exts := by
    rw [Ef.fields_eq_readFields, hreading.fueled]
  refine ⟨exts, tail, hitems, ?_, ?_, ?_, ?_, hreading.back, hreading.last⟩
  · rw [hfields]
    by_cases hle : headerLen ≤ packet.length
    · rw [Nat.min_eq_left hle]
      exact hreading.moving
    · have hnone : located headerLen exts = [] := by
        rw [← hreading.fueled, List.drop_eq_nil_of_le (by omega)]
        rfl
      rw [hnone]
      exact Ef.fieldsNext_short (by omega)
  · rw [hfields]
    exact located_map headerLen exts
  · intro i field hfield
    rw [hfields] at hfield
    exact located_offset hfield
  · intro field hfield
    exact ExtensionField.writeField_eq_bytes (hreading.wellFormed field hfield)

end RustyTime
