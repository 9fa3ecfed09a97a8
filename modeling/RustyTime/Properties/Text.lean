import Mathlib.Data.List.Basic
import RustyTime.Daemon.SealedStore

/-!
# Text written and read back

What the store writes as text it reads back: bytes as hexadecimal digits, a key from its three
parts, and an endpoint from two words, if they are two words.

* `unhex_hex` — bytes
* `compoundKey_inj` — keys differ where a part does
* `endpointOf_metaText` — an endpoint whose name is one word, and no other
-/

namespace RustyTime

/-! ## Bytes of a text -/

/-- A text of ASCII characters has a byte for each of them. -/
theorem asBytes_ofList {cs : List Char} (h : ∀ c ∈ cs, c.toNat < 128) :
    asBytes (String.ofList cs) = cs.map fun c => UInt8.ofNat c.toNat := by
  have hbytes : cs.flatMap String.utf8EncodeChar = cs.map fun c => UInt8.ofNat c.toNat := by
    induction cs with
    | nil => rfl
    | cons c cs ih =>
      have hc : c.val.toNat < 128 := h c List.mem_cons_self
      have hsize : c.utf8Size = 1 := Char.utf8Size_eq_one_iff.mpr (Nat.le_of_lt_succ hc)
      rw [List.flatMap_cons, List.map_cons, ih fun c' hc' => h c' (List.mem_cons_of_mem c hc'),
        String.utf8EncodeChar_eq_singleton hsize]
      rfl
  unfold asBytes
  rw [String.toByteArray_ofList, List.utf8Encode, List.toList_data_toByteArray, hbytes]

/-! ## Hexadecimal -/

theorem toDigit_digitChar {n : Nat} (h : n < 16) :
    toDigit (UInt8.ofNat n.digitChar.toNat) = some n := by
  have hall : ∀ n < 16, toDigit (UInt8.ofNat n.digitChar.toNat) = some n := by decide
  exact hall n h

theorem digitChar_lt {n : Nat} (h : n < 16) : n.digitChar.toNat < 128 := by
  have hall : ∀ n < 16, n.digitChar.toNat < 128 := by decide
  exact hall n h

/-- The two digits of a byte. -/
def digits (b : UInt8) : List Char := [(b.toNat / 16).digitChar, (b.toNat % 16).digitChar]

theorem asBytes_hex (bytes : List UInt8) :
    asBytes (hex bytes) = bytes.flatMap fun b => (digits b).map fun c => UInt8.ofNat c.toNat := by
  have hascii : ∀ c ∈ bytes.flatMap digits, c.toNat < 128 := by
    intro c hc
    obtain ⟨b, -, hb⟩ := List.mem_flatMap.mp hc
    have hlt : b.toNat < 256 := b.toNat_lt
    simp only [digits, List.mem_cons, List.not_mem_nil, or_false] at hb
    rcases hb with rfl | rfl
    · exact digitChar_lt (by omega)
    · exact digitChar_lt (by omega)
  have h := asBytes_ofList hascii
  rw [List.map_flatMap] at h
  exact h

/-- A byte from its digits. -/
theorem unhexPairs_digits (b : UInt8) (rest : List UInt8) :
    unhexPairs (((digits b).map fun c => UInt8.ofNat c.toNat) ++ rest) =
      (unhexPairs rest).map (b :: ·) := by
  have hlt : b.toNat < 256 := b.toNat_lt
  have hlow : b.toNat % 16 < 2 ^ 4 := Nat.mod_lt _ (by decide)
  have hbyte : UInt8.ofNat (((b.toNat / 16) <<< 4) ||| (b.toNat % 16)) = b := by
    rw [← Nat.shiftLeft_add_eq_or_of_lt hlow, Nat.shiftLeft_eq,
      show b.toNat / 16 * 2 ^ 4 + b.toNat % 16 = b.toNat by omega, UInt8.ofNat_toNat]
  show unhexPairs (UInt8.ofNat (b.toNat / 16).digitChar.toNat ::
    UInt8.ofNat (b.toNat % 16).digitChar.toNat :: rest) = _
  rw [unhexPairs, toDigit_digitChar (by omega), toDigit_digitChar (by omega)]
  cases unhexPairs rest with
  | none => rfl
  | some out =>
    show some (UInt8.ofNat (((b.toNat / 16) <<< 4) ||| (b.toNat % 16)) :: out) = some (b :: out)
    rw [hbyte]

theorem length_asBytes_hex (bytes : List UInt8) :
    (asBytes (hex bytes)).length = 2 * bytes.length := by
  rw [asBytes_hex, List.length_flatMap]
  induction bytes with
  | nil => rfl
  | cons b bytes ih =>
    rw [List.map_cons, List.sum_cons, ih, List.length_cons]
    simp [digits]
    omega

/-- **Bytes are read back from their digits.** -/
theorem unhex_hex (bytes : List UInt8) : unhex (hex bytes) = some bytes := by
  unfold unhex
  rw [if_neg (by rw [length_asBytes_hex]; omega), asBytes_hex]
  induction bytes with
  | nil => rfl
  | cons b bytes ih =>
    rw [List.flatMap_cons, unhexPairs_digits, ih]
    rfl

theorem hex_ne_empty {bytes : List UInt8} (h : bytes ≠ []) : hex bytes ≠ "" := by
  intro hempty
  have hback := unhex_hex bytes
  rw [hempty] at hback
  exact h (Option.some.inj hback).symm

namespace Store

/-! ## Compound keys -/

/-- Two lists cut at the first of an element. -/
theorem append_cons_inj {α : Type} {a : α} {xs xs' ys ys' : List α} (h : a ∉ xs) (h' : a ∉ xs')
    (heq : xs ++ a :: ys = xs' ++ a :: ys') : xs = xs' ∧ ys = ys' := by
  induction xs generalizing xs' with
  | nil =>
    cases xs' with
    | nil => exact ⟨rfl, (List.cons.inj heq).2⟩
    | cons x' xs' => exact absurd ((List.cons.inj heq).1 ▸ List.mem_cons_self) h'
  | cons x xs ih =>
    cases xs' with
    | nil => exact absurd ((List.cons.inj heq).1 ▸ List.mem_cons_self) h
    | cons x' xs' =>
      obtain ⟨rfl, htail⟩ := List.cons.inj heq
      obtain ⟨rfl, rfl⟩ := ih (fun hmem => h (List.mem_cons_of_mem _ hmem))
        (fun hmem => h' (List.mem_cons_of_mem _ hmem)) htail
      exact ⟨rfl, rfl⟩

theorem toList_compoundKey (kind owner : String) (index : Nat) :
    (compoundKey kind owner index).toList =
      kind.toList ++ '/' :: (owner.toList ++ '/' :: Nat.toDigits 10 index) := by
  have hindex : (toString index).toList = Nat.toDigits 10 index := Nat.toList_repr
  have hslash : ("/" : String).toList = ['/'] := rfl
  unfold compoundKey
  rw [String.toList_append, String.toList_append, String.toList_append, String.toList_append,
    hindex, hslash]
  simp

theorem slash_notMem_toDigits (index : Nat) : '/' ∉ Nat.toDigits 10 index := by
  intro hmem
  have hdigit := Nat.isDigit_of_mem_toDigits (by decide) (by decide) hmem
  cases hdigit

/-- **Keys differ where a part does**: a kind has no slash and an index neither. -/
theorem compoundKey_inj {kind kind' owner owner' : String} {index index' : Nat}
    (hkind : '/' ∉ kind.toList) (hkind' : '/' ∉ kind'.toList)
    (h : compoundKey kind owner index = compoundKey kind' owner' index') :
    kind = kind' ∧ owner = owner' ∧ index = index' := by
  have hlist := congrArg String.toList h
  rw [toList_compoundKey, toList_compoundKey] at hlist
  obtain ⟨hkinds, hrest⟩ := append_cons_inj hkind hkind' hlist
  -- the last slash, from behind
  have hreverse := congrArg List.reverse hrest
  simp only [List.reverse_append, List.reverse_cons, List.append_assoc, List.singleton_append]
    at hreverse
  obtain ⟨hindex, howner⟩ := append_cons_inj
    (by rw [List.mem_reverse]; exact slash_notMem_toDigits index)
    (by rw [List.mem_reverse]; exact slash_notMem_toDigits index') hreverse
  refine ⟨String.toList_inj.mp hkinds, String.toList_inj.mp (List.reverse_inj.mp howner), ?_⟩
  have hnum := congrArg (Nat.ofDigitChars 10 · 0) (List.reverse_inj.mp hindex)
  simpa only [Nat.ofDigitChars_ten_toDigits] using hnum

/-! ## Endpoints -/

/-- The digits of a number: they are the whole of it, and say it. -/
theorem digits_toString (n : Nat) :
    stripPlus (toString n).toList = Nat.toDigits 10 n ∧
      (Nat.toDigits 10 n).all Char.isDigit = true ∧
        Nat.ofDigitChars 10 (Nat.toDigits 10 n) 0 = n := by
  have hlist : (toString n).toList = Nat.toDigits 10 n := Nat.toList_repr
  have hdigits : ∀ c ∈ Nat.toDigits 10 n, c.isDigit = true := fun c hc =>
    Nat.isDigit_of_mem_toDigits (by decide) (by decide) hc
  have hplus : '+' ∉ Nat.toDigits 10 n := fun hmem => by cases hdigits _ hmem
  refine ⟨?_, List.all_eq_true.mpr hdigits, Nat.ofDigitChars_ten_toDigits⟩
  rw [hlist]
  unfold stripPlus
  split
  · next heq => exact absurd (heq ▸ List.mem_cons_self) hplus
  · rfl

theorem parseU16_toString (port : UInt16) : parseU16 (toString port.toNat) = some port := by
  obtain ⟨hstrip, hall, hvalue⟩ := digits_toString port.toNat
  unfold parseU16
  dsimp only
  rw [hstrip, hvalue, if_pos ⟨Nat.toDigits_ne_nil, hall, port.toNat_lt⟩, UInt16.ofNat_toNat]

theorem parseUsize_toString {n : Nat} (h : n < 2 ^ 64) : parseUsize (toString n) = some n := by
  obtain ⟨hstrip, hall, hvalue⟩ := digits_toString n
  unfold parseUsize
  dsimp only
  rw [hstrip, hvalue, if_pos ⟨Nat.toDigits_ne_nil, hall, h⟩]

theorem isWhitespace_of_isDigit {c : Char} (h : c.isDigit = true) : isWhitespace c = false := by
  have hrange : 48 ≤ c.toNat ∧ c.toNat ≤ 57 := by
    unfold Char.isDigit at h
    rw [Bool.and_eq_true, decide_eq_true_eq, decide_eq_true_eq] at h
    exact h
  unfold isWhitespace
  simp
  omega

/-- A name of one word. -/
def OneWord (s : String) : Prop := s ≠ "" ∧ ∀ c ∈ s.toList, isWhitespace c = false

/-- A number is one word. -/
theorem oneWord_toString (n : Nat) : OneWord (toString n) := by
  have hlist : (toString n).toList = Nat.toDigits 10 n := Nat.toList_repr
  constructor
  · intro hempty
    rw [hempty] at hlist
    exact Nat.toDigits_ne_nil hlist.symm
  · rw [hlist]
    intro c hc
    exact isWhitespace_of_isDigit (Nat.isDigit_of_mem_toDigits (by decide) (by decide) hc)

/-- The pieces of a split hold no separator. -/
theorem of_mem_splitOnP {α : Type} {p : α → Bool} {xs piece : List α}
    (h : piece ∈ xs.splitOnP p) : ∀ x ∈ piece, p x = false := by
  induction xs generalizing piece with
  | nil =>
    rw [List.splitOnP_nil, List.mem_singleton] at h
    subst h
    intro x hx
    cases hx
  | cons x xs ih =>
    rw [List.splitOnP_cons_eq_if_modifyHead] at h
    split at h
    · rcases List.mem_cons.mp h with rfl | h
      · intro y hy
        cases hy
      · exact ih h
    · next hx =>
      rcases hsplit : xs.splitOnP p with _ | ⟨first, others⟩
      · exact absurd hsplit (List.splitOnP_ne_nil p xs)
      · rw [hsplit, List.modifyHead_cons] at h
        rcases List.mem_cons.mp h with rfl | h
        · intro y hy
          rcases List.mem_cons.mp hy with rfl | hy
          · exact Bool.eq_false_iff.mpr hx
          · exact ih (hsplit ▸ List.mem_cons_self) y hy
        · exact ih (hsplit ▸ List.mem_cons_of_mem _ h)

/-- Every piece of a text is a word. -/
theorem oneWord_of_mem {s piece : String} (h : piece ∈ splitWhitespace s) : OneWord piece := by
  unfold splitWhitespace at h
  obtain ⟨cs, hcs, rfl⟩ := List.mem_map.mp h
  obtain ⟨hmem, hne⟩ := List.mem_filter.mp hcs
  constructor
  · intro hempty
    have hnil : cs = [] := by
      have hlist := congrArg String.toList hempty
      rwa [String.toList_ofList] at hlist
    rw [hnil] at hne
    cases hne
  · rw [String.toList_ofList]
    exact of_mem_splitOnP hmem

/-- The words of a meta entry: those of the name, and the port. -/
theorem splitWhitespace_metaText (server : String) (port : UInt16) :
    splitWhitespace (metaText server port) = splitWhitespace server ++ [toString port.toNat] := by
  have hlist : (toString port.toNat).toList = Nat.toDigits 10 port.toNat := Nat.toList_repr
  have hspace : (" " : String).toList = [' '] := rfl
  have hdigits : ∀ c ∈ Nat.toDigits 10 port.toNat, isWhitespace c = false := by
    intro c hc
    exact isWhitespace_of_isDigit (Nat.isDigit_of_mem_toDigits (by decide) (by decide) hc)
  have hport : String.ofList (Nat.toDigits 10 port.toNat) = toString port.toNat := by
    rw [← hlist, String.ofList_toList]
  unfold splitWhitespace metaText
  rw [String.toList_append, String.toList_append, hspace, hlist, List.append_assoc,
    List.singleton_append, List.splitOnP_append_cons _ _ (by decide),
    List.splitOnP_eq_singleton hdigits, List.filter_append, List.map_append]
  have hne : ([Nat.toDigits 10 port.toNat].filter fun piece => !piece.isEmpty) =
      [Nat.toDigits 10 port.toNat] := by
    refine List.filter_eq_self.mpr fun piece hpiece => ?_
    rw [List.mem_singleton.mp hpiece]
    simp [Nat.toDigits_ne_nil]
  rw [hne, List.map_singleton, hport]

theorem splitWhitespace_oneWord {s : String} (h : OneWord s) : splitWhitespace s = [s] := by
  have hne : s.toList ≠ [] := fun hnil => h.1 (String.toList_inj.mp hnil)
  unfold splitWhitespace
  rw [List.splitOnP_eq_singleton h.2, List.filter_cons_of_pos (by simp [hne]), List.filter_nil,
    List.map_singleton, String.ofList_toList]

/-- **An endpoint is read back exactly if its name is one word.** -/
theorem endpointOf_metaText (server : String) (port : UInt16) :
    endpointOf (metaText server port) = some (server, port) ↔ OneWord server := by
  unfold endpointOf
  rw [splitWhitespace_metaText]
  constructor
  · intro h
    split at h
    · next first second rest hwords =>
      obtain ⟨p, -, hpair⟩ := Option.map_eq_some_iff.mp h
      obtain ⟨rfl, -⟩ := Prod.mk.inj hpair
      have hmem : first ∈ splitWhitespace (metaText first port) := by
        rw [splitWhitespace_metaText, hwords]
        exact List.mem_cons_self
      exact oneWord_of_mem hmem
    · cases h
  · intro h
    rw [splitWhitespace_oneWord h]
    show (parseU16 (toString port.toNat)).map _ = _
    rw [parseU16_toString]
    rfl

end Store

end RustyTime
