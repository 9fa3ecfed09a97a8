import RustyTime.Core.ClientTable
import RustyTime.Infra.Chain
import RustyTime.Properties.Index
import RustyTime.Spec.ClientRun

/-!
# The client table's invariant

`Inv t n l` ties the three structures of the table together: the links spell the list `l`, the
index is the map from the keys of the slots in `l` to those slots, and the slots not in `l` are
the free ones. `Settled` adds that no slot is free, which is so between operations: an evicted
slot is taken over by the operation that evicted it.

* `Settled.slotFor_known`, `Settled.slotFor_room`, `Settled.slotFor_full` — the three things
  `slotFor` can do: a hit, a new slot, a reused slot
* `admitHandle_rejected`, `admitHandle_passed` — the two things an admission can do
* `Settled.step` — every operation keeps the invariant
* `new_settled` — a fresh table has it
-/

namespace RustyTime.ClientTable

open Infra.Chain Index

set_option linter.unusedSectionVars false

variable {K R : Type} {t : ClientTable K R} {n : ℕ} [NeZero n] {l : List ℕ} {i : ℕ}

/-! ## Reading the slots -/

/-- What a slot holds beside its links. -/
def core (t : ClientTable K R) (i : ℕ) : Option (K × ClientRecord R × ℕ) :=
  t.slots[i]?.map fun s => (s.key, s.record, s.generation)

theorem keyOf_eq_core (t : ClientTable K R) (i : ℕ) :
    keyOf t.slots i = (t.core i).map Prod.fst := by
  simp [keyOf, core, Function.comp_def]

theorem core_isSome_iff : (t.core i).isSome ↔ i < t.slots.size := by
  simp [core]

theorem core_eq_none_iff : t.core i = none ↔ t.slots.size ≤ i := by
  simp [core]

theorem size_of_core {t' : ClientTable K R} (h : t'.core = t.core) :
    t'.slots.size = t.slots.size := by
  have hiff : ∀ i, i < t'.slots.size ↔ i < t.slots.size := by
    intro i
    rw [← core_isSome_iff, ← core_isSome_iff, h]
  have h1 := hiff t'.slots.size
  have h2 := hiff t.slots.size
  omega

@[simp] theorem core_setNext (t : ClientTable K R) (i v : ℕ) : (t.setNext i v).core = t.core := by
  funext j
  simp only [core, setNext, Array.getElem?_modify]
  split <;> cases t.slots[j]? <;> simp

@[simp] theorem core_setPrev (t : ClientTable K R) (i v : ℕ) : (t.setPrev i v).core = t.core := by
  funext j
  simp only [core, setPrev, Array.getElem?_modify]
  split <;> cases t.slots[j]? <;> simp

theorem core_setRecord (t : ClientTable K R) (i j : ℕ) (f : ClientRecord R → ClientRecord R) :
    (t.setRecord i f).core j
      = if i = j then (t.core j).map fun c => (c.1, f c.2.1, c.2.2) else t.core j := by
  simp only [core, setRecord, Array.getElem?_modify]
  split <;> cases t.slots[j]? <;> simp

theorem links_setNext {v : ℕ} (hi : i < t.slots.size) :
    (t.setNext i v).links = { t.links with next := Function.update t.links.next i v } := by
  ext j <;> simp only [links, setNext, Array.getElem?_modify]
  · by_cases hij : i = j
    · subst hij; simp [hi]
    · rw [if_neg hij, Function.update_of_ne (Ne.symm hij)]
  · split <;> cases t.slots[j]? <;> simp

theorem links_setPrev {v : ℕ} (hi : i < t.slots.size) :
    (t.setPrev i v).links = { t.links with prev := Function.update t.links.prev i v } := by
  ext j <;> simp only [links, setPrev, Array.getElem?_modify]
  · split <;> cases t.slots[j]? <;> simp
  · by_cases hij : i = j
    · subst hij; simp [hi]
    · rw [if_neg hij, Function.update_of_ne (Ne.symm hij)]

@[simp] theorem links_setRecord (t : ClientTable K R) (i : ℕ)
    (f : ClientRecord R → ClientRecord R) : (t.setRecord i f).links = t.links := by
  ext j <;> simp only [links, setRecord, Array.getElem?_modify] <;>
    split <;> cases t.slots[j]? <;> simp

@[simp] theorem size_setNext (t : ClientTable K R) (i v : ℕ) :
    (t.setNext i v).slots.size = t.slots.size := size_of_core (core_setNext t i v)

@[simp] theorem size_setPrev (t : ClientTable K R) (i v : ℕ) :
    (t.setPrev i v).slots.size = t.slots.size := size_of_core (core_setPrev t i v)

/-- The limiter's state and the table's fixed parameters are the same. -/
structure SameLimits (t t' : ClientTable K R) : Prop where
  capacity : t'.capacity = t.capacity
  config : t'.config = t.config
  refillPerS : t'.refillPerS = t.refillPerS
  globalTokens : t'.globalTokens = t.globalTokens
  globalLast : t'.globalLast = t.globalLast
  globalDropsSinceKod : t'.globalDropsSinceKod = t.globalDropsSinceKod

/-- Only the recency links may differ. -/
structure SameRest (t t' : ClientTable K R) : Prop extends SameLimits t t' where
  core : t'.core = t.core
  index : t'.index = t.index
  free : t'.free = t.free
  stats : t'.stats = t.stats

theorem SameLimits.refl (t : ClientTable K R) : SameLimits t t := ⟨rfl, rfl, rfl, rfl, rfl, rfl⟩

theorem SameLimits.trans {a b c : ClientTable K R} (h : SameLimits a b) (h' : SameLimits b c) :
    SameLimits a c :=
  ⟨h'.capacity.trans h.capacity, h'.config.trans h.config, h'.refillPerS.trans h.refillPerS,
    h'.globalTokens.trans h.globalTokens, h'.globalLast.trans h.globalLast,
    h'.globalDropsSinceKod.trans h.globalDropsSinceKod⟩

theorem SameRest.refl (t : ClientTable K R) : SameRest t t := ⟨.refl t, rfl, rfl, rfl, rfl⟩

theorem SameRest.trans {a b c : ClientTable K R} (h : SameRest a b) (h' : SameRest b c) :
    SameRest a c :=
  ⟨h.toSameLimits.trans h'.toSameLimits, h'.core.trans h.core, h'.index.trans h.index,
    h'.free.trans h.free, h'.stats.trans h.stats⟩

/-! ## The recency list -/

theorem setNext_sameRest (t : ClientTable K R) (i v : ℕ) : SameRest t (t.setNext i v) :=
  ⟨⟨rfl, rfl, rfl, rfl, rfl, rfl⟩, core_setNext t i v, rfl, rfl, rfl⟩

theorem setPrev_sameRest (t : ClientTable K R) (i v : ℕ) : SameRest t (t.setPrev i v) :=
  ⟨⟨rfl, rfl, rfl, rfl, rfl, rfl⟩, core_setPrev t i v, rfl, rfl, rfl⟩

theorem mru_sameRest (t : ClientTable K R) (i : ℕ) : SameRest t { t with mru := i } :=
  ⟨⟨rfl, rfl, rfl, rfl, rfl, rfl⟩, rfl, rfl, rfl, rfl⟩

theorem lru_sameRest (t : ClientTable K R) (i : ℕ) : SameRest t { t with lru := i } :=
  ⟨⟨rfl, rfl, rfl, rfl, rfl, rfl⟩, rfl, rfl, rfl, rfl⟩

theorem unlink_sameRest (t : ClientTable K R) (i : ℕ) : SameRest t (t.unlink i) := by
  unfold unlink
  split
  · exact .refl t
  · dsimp only
    split <;> split
    · exact (mru_sameRest t _).trans (lru_sameRest _ _)
    · exact (setNext_sameRest t _ _).trans (lru_sameRest _ _)
    · exact (mru_sameRest t _).trans (setPrev_sameRest _ _ _)
    · exact (setNext_sameRest t _ _).trans (setPrev_sameRest _ _ _)

theorem linkFront_sameRest (t : ClientTable K R) (i : ℕ) : SameRest t (t.linkFront i) := by
  have hold : SameRest t ((t.setPrev i linkNil).setNext i t.mru) :=
    (setPrev_sameRest t _ _).trans (setNext_sameRest _ _ _)
  unfold linkFront
  dsimp only
  split
  · exact (hold.trans (lru_sameRest _ i)).trans (mru_sameRest _ i)
  · exact (hold.trans (setPrev_sameRest _ _ _)).trans (mru_sameRest _ i)

theorem touch_sameRest (t : ClientTable K R) (i : ℕ) : SameRest t (t.touch i) := by
  unfold touch
  split
  · exact .refl t
  · exact (unlink_sameRest t i).trans (linkFront_sameRest _ i)

theorem links_mru (t : ClientTable K R) (i : ℕ) :
    ({ t with mru := i } : ClientTable K R).links = { t.links with head := i } := rfl

theorem links_lru (t : ClientTable K R) (i : ℕ) :
    ({ t with lru := i } : ClientTable K R).links = { t.links with last := i } := rfl

/-- The source's writes are the list operation, where every node is a slot. -/
theorem unlink_links {a b : List ℕ} (h : Threaded linkNil t.links (a ++ i :: b))
    (hl : ∀ j ∈ a ++ i :: b, j < t.slots.size) :
    (t.unlink i).links = t.links.unlink linkNil i := by
  have hi : i < t.slots.size := hl i (by simp)
  have hprev : t.links.prev i = t.slots[i].prev := by simp [links, hi]
  have hnext : t.links.next i = t.slots[i].next := by simp [links, hi]
  have hp := h.prev_eq a i b rfl
  have hn := h.next_eq a i b rfl
  have hpsize : t.slots[i].prev ≠ linkNil → t.slots[i].prev < t.slots.size := by
    intro hne
    rw [← hprev, hp] at hne ⊢
    have ha : a ≠ [] := by rintro rfl; exact hne rfl
    exact hl _ (List.mem_append_left _ (getLastD_mem ha _))
  have hnsize : t.slots[i].next ≠ linkNil → t.slots[i].next < t.slots.size := by
    intro hne
    rw [← hnext, hn] at hne ⊢
    have hb : b ≠ [] := by rintro rfl; exact hne rfl
    exact hl _ (List.mem_append_right _ (List.mem_cons_of_mem _ (headD_mem hb _)))
  unfold unlink
  rw [Array.getElem?_eq_getElem hi]
  simp only [Links.unlink, hprev, hnext]
  by_cases hp0 : t.slots[i].prev = linkNil <;> by_cases hn0 : t.slots[i].next = linkNil
  · simp only [if_pos hp0, if_pos hn0]
    rfl
  · simp only [if_pos hp0, if_neg hn0]
    rw [links_setPrev (by exact hnsize hn0), links_mru]
  · simp only [if_neg hp0, if_pos hn0]
    rw [links_lru, links_setNext (hpsize hp0)]
  · simp only [if_neg hp0, if_neg hn0]
    rw [links_setPrev (by rw [size_setNext]; exact hnsize hn0), links_setNext (hpsize hp0)]

theorem linkFront_links (h : Threaded linkNil t.links l) (hl : ∀ j ∈ l, j < t.slots.size)
    (hi : i < t.slots.size) : (t.linkFront i).links = t.links.pushFront linkNil i := by
  have hbase : ((t.setPrev i linkNil).setNext i t.mru).links
      = { t.links with
          next := Function.update t.links.next i t.mru
          prev := Function.update t.links.prev i linkNil } := by
    rw [links_setNext (by simpa using hi), links_setPrev hi]
  have hhead : t.links.head = t.mru := rfl
  unfold linkFront
  simp only [Links.pushFront, hhead]
  by_cases hm : t.mru = linkNil
  · simp only [if_pos hm]
    change { ((t.setPrev i linkNil).setNext i t.mru).links with head := i, last := i } = _
    rw [hbase]
  · have hms : t.mru < t.slots.size := by
      have := h.head_eq
      rw [hhead] at this
      have hne : l ≠ [] := by rintro rfl; exact hm this
      rw [this]
      exact hl _ (headD_mem hne _)
    simp only [if_neg hm]
    rw [links_mru, links_setPrev (by simpa using hms), hbase]

/-! ## The invariant -/

/-- **The three structures agree on the live slots `l`.** -/
structure Inv (t : ClientTable K R) (n : ℕ) [NeZero n] (l : List ℕ) : Prop where
  chain : Threaded linkNil t.links l
  index : Sound t.index t.slots n l
  nodup : (l ++ t.free).Nodup
  slots : ∀ i, i ∈ l ++ t.free ↔ i < t.slots.size
  bound : t.slots.size ≤ t.capacity
  pos : 1 ≤ t.capacity
  room : 4 * t.capacity ≤ n
  width : n ≤ 4294967296

/-- The invariant between operations: every slot is live. -/
structure Settled (t : ClientTable K R) (n : ℕ) [NeZero n] (l : List ℕ) : Prop
    extends Inv t n l where
  free : t.free = []

theorem Inv.lt_size (h : Inv t n l) (hi : i ∈ l) : i < t.slots.size :=
  (h.slots i).mp (List.mem_append_left _ hi)

theorem Inv.exists_core (h : Inv t n l) (hi : i ∈ l) : ∃ c, t.core i = some c :=
  Option.isSome_iff_exists.mp (core_isSome_iff.mpr (h.lt_size hi))

theorem Inv.capacity_lt (h : Inv t n l) : t.capacity < linkNil := by
  have := h.room
  have := h.width
  have := NeZero.pos n
  unfold linkNil
  omega

theorem Inv.key (h : Inv t n l) (hi : i ∈ l) : ∃ key, keyOf t.slots i = some key :=
  h.index.keys i hi

theorem Settled.mem_iff (h : Settled t n l) : i ∈ l ↔ i < t.slots.size := by
  simpa [h.free] using h.slots i

/-- Two live slots never share a key. -/
theorem Settled.key_ne (h : Settled t n l) (hi : i ∈ l) (hkey : keyOf t.slots i = some key) {s : ℕ}
    {c : K × ClientRecord R × ℕ} (hc : t.core s = some c) (hne : i ≠ s) : key ≠ c.1 := by
  rintro rfl
  have hs : s ∈ l := by
    rw [h.mem_iff, ← core_isSome_iff, hc]
    rfl
  have hks : keyOf t.slots s = some c.1 := by
    rw [keyOf_eq_core, hc]
    rfl
  exact hne (h.index.inj i hi s hs (hkey.trans hks.symm))

theorem Settled.length (h : Settled t n l) : l.length = t.slots.size := by
  have hperm : l.Perm (List.range t.slots.size) := by
    rw [List.perm_ext_iff_of_nodup h.chain.nodup List.nodup_range]
    intro i
    rw [h.mem_iff, List.mem_range]
  simpa using hperm.length_eq

/-- Relinking the live slots in another order keeps the invariant. -/
theorem Inv.relink {t' : ClientTable K R} {l' : List ℕ} (h : Inv t n l) (hs : SameRest t t')
    (hc : Threaded linkNil t'.links l') (hp : l'.Perm l) : Inv t' n l' where
  chain := hc
  index := by
    rw [hs.index]
    refine (h.index.perm hp).congr ?_
    intro i _
    rw [keyOf_eq_core, keyOf_eq_core, hs.core]
  nodup := by
    rw [hs.free]
    exact (hp.append_right _).nodup_iff.mpr h.nodup
  slots := by
    intro i
    rw [hs.free, (hp.append_right _).mem_iff, h.slots, size_of_core hs.core]
  bound := by rw [size_of_core hs.core, hs.capacity]; exact h.bound
  pos := by rw [hs.capacity]; exact h.pos
  room := by rw [hs.capacity]; exact h.room
  width := h.width

/-- **`touch` moves a live slot to the front.** -/
theorem Inv.touch {a b : List ℕ} (h : Inv t n (a ++ i :: b)) :
    Inv (t.touch i) n (i :: (a ++ b)) := by
  refine h.relink (touch_sameRest t i) ?_ List.perm_middle.symm
  have hlt : ∀ j ∈ a ++ i :: b, j < t.slots.size := fun j => h.lt_size
  unfold ClientTable.touch
  split
  · next hm =>
    have hhead : t.links.head = i := hm
    cases a with
    | nil => exact h.chain
    | cons c a =>
      -- the head of a list without repetition is not further down
      rw [h.chain.head_eq] at hhead
      have hnd := h.chain.nodup
      simp only [List.cons_append, List.headD_cons] at hhead
      subst hhead
      simp at hnd
  · have hun : Threaded linkNil (t.unlink i).links (a ++ b) := by
      rw [unlink_links h.chain hlt]
      exact h.chain.unlink
    have hsize := size_of_core (unlink_sameRest t i).core
    have hi : i < (t.unlink i).slots.size := by rw [hsize]; exact hlt i (by simp)
    rw [linkFront_links hun (fun j hj => ?_) hi]
    · have hnd := List.nodup_middle.mp h.chain.nodup
      refine hun.pushFront (List.nodup_cons.mp hnd).1 fun he => h.chain.fresh ?_
      rw [← he]
      simp
    · rw [hsize]
      have hsub : (a ++ b).Sublist (a ++ i :: b) :=
        (List.Sublist.refl a).append (List.sublist_cons_self i b)
      exact hlt j (hsub.subset hj)

variable [DecidableEq K]

/-- **`evict_one` frees the last slot of the list.** -/
theorem Inv.evictOne {a : List ℕ} {v : ℕ} (h : Inv t n (a ++ [v])) :
    Inv t.evictOne n a ∧ t.evictOne.free = v :: t.free ∧ t.evictOne.core = t.core ∧
      SameLimits t t.evictOne ∧
      t.evictOne.stats = { t.stats with evicted := t.stats.evicted + 1 } := by
  have hlru : t.lru = v := by
    have := h.chain.last_eq
    rwa [List.getLastD_concat] at this
  have hv : v < t.slots.size := h.lt_size (by simp)
  have hne : v ≠ linkNil := by
    intro he
    exact h.chain.fresh (by simp [he])
  have hs := unlink_sameRest t v
  have hsize := size_of_core hs.core
  obtain ⟨key, hkey⟩ := h.key (i := v) (by simp)
  have hkey' : keyOf (t.unlink v).slots v = some key := by
    rw [keyOf_eq_core, hs.core, ← keyOf_eq_core, hkey]
  have heq : t.evictOne =
      { t.unlink v with
        index := (t.unlink v).index.remove key (t.unlink v).slots
        free := v :: (t.unlink v).free
        stats := { (t.unlink v).stats with evicted := (t.unlink v).stats.evicted + 1 } } := by
    have hget : ∃ slot, (t.unlink v).slots[v]? = some slot ∧ slot.key = key := by
      simpa [keyOf] using hkey'
    obtain ⟨slot, hslot, rfl⟩ := hget
    unfold ClientTable.evictOne
    simp only [hlru, if_neg hne, hslot]
  have hchain : Threaded linkNil (t.unlink v).links a := by
    rw [unlink_links h.chain fun j => h.lt_size]
    simpa using h.chain.unlink
  have hindex : Sound ((t.unlink v).index.remove key (t.unlink v).slots)
      (t.unlink v).slots n a := by
    have hbase : Sound (t.unlink v).index (t.unlink v).slots n (a ++ [v]) := by
      rw [hs.index]
      refine h.index.congr ?_
      intro i _
      rw [keyOf_eq_core, keyOf_eq_core, hs.core]
    have hva : v ∉ a := by
      have hnd := h.chain.nodup
      rw [List.nodup_append] at hnd
      exact fun hm => hnd.2.2 v hm v (by simp) rfl
    have := hbase.remove (i := v) (by simp) hkey'
    rwa [List.erase_append_right _ hva, List.erase_cons_head, List.append_nil] at this
  have hperm : (a ++ v :: t.free).Perm ((a ++ [v]) ++ t.free) := by simp
  rw [heq]
  refine ⟨⟨hchain, hindex, ?_, ?_, ?_, ?_, ?_, h.width⟩, by rw [hs.free], hs.core,
    ⟨hs.capacity, hs.config, hs.refillPerS, hs.globalTokens, hs.globalLast,
      hs.globalDropsSinceKod⟩, by rw [hs.stats]⟩
  · dsimp only
    rw [hs.free, hperm.nodup_iff]
    exact h.nodup
  · intro i
    dsimp only
    rw [hs.free, hperm.mem_iff, hsize]
    exact h.slots i
  · dsimp only
    rw [hsize, hs.capacity]
    exact h.bound
  · dsimp only
    rw [hs.capacity]
    exact h.pos
  · dsimp only
    rw [hs.capacity]
    exact h.room

/-! ## Taking a slot -/

/-- The generation of the next client in slot `i`. -/
def nextGeneration (t : ClientTable K R) (i : ℕ) : ℕ :=
  match t.core i with
  | none => 0
  | some c => (c.2.2 + 1) % 4294967296

/-- A new client was written to slot `i` and not yet linked in. -/
structure Placed (t p : ClientTable K R) (i : ℕ) (key : K) (record : ClientRecord R) : Prop
    extends SameLimits t p where
  slot : i = t.free.headD t.slots.size
  free : p.free = t.free.tail
  size : p.slots.size = max t.slots.size (i + 1)
  core : ∀ j, p.core j = if j = i then some (key, record, t.nextGeneration i) else t.core j
  next : ∀ j, j ≠ i → p.links.next j = t.links.next j
  prev : ∀ j, j ≠ i → p.links.prev j = t.links.prev j
  head : p.mru = t.mru
  last : p.lru = t.lru
  index : p.index = t.index
  stats : p.stats = t.stats

theorem allocSlot_placed (h : Inv t n l) (key : K) (record : ClientRecord R) :
    ∃ p i, t.allocSlot key record = (p.linkFront i, i) ∧ Placed t p i key record := by
  unfold allocSlot
  cases hf : t.free with
  | cons i free =>
    have hi : i < t.slots.size := (h.slots i).mp (by simp [hf])
    refine ⟨_, i, rfl, ⟨rfl, rfl, rfl, rfl, rfl, rfl⟩, ?_, ?_, ?_, ?_, ?_, ?_, rfl, rfl, rfl, rfl⟩
    · simp [hf]
    · simp [hf]
    · simp only [Array.size_modify]
      omega
    · intro j
      simp only [core, Array.getElem?_modify, nextGeneration]
      by_cases hij : j = i
      · subst hij
        simp [hi]
      · rw [if_neg (Ne.symm hij), if_neg hij]
    · intro j hj
      simp [links, Array.getElem?_modify, Ne.symm hj]
    · intro j hj
      simp [links, Array.getElem?_modify, Ne.symm hj]
  | nil =>
    have hsize : t.slots.size < linkNil := by
      have h1 := h.bound
      have h2 := h.capacity_lt
      omega
    let slot : Slot K (ClientRecord R) :=
      { key := key, record := record, prev := linkNil, next := linkNil, generation := 0 }
    have hi : (t.slots.push slot).size - 1 = t.slots.size := by simp
    have hmod : t.slots.size % 4294967296 = t.slots.size := by
      unfold linkNil at hsize
      omega
    refine ⟨{ t with slots := t.slots.push slot, free := [] }, t.slots.size,
      by simp only [slot, hi, hmod], ⟨rfl, rfl, rfl, rfl, rfl, rfl⟩, ?_, ?_, ?_, ?_,
      ?_, ?_, rfl, rfl, rfl, rfl⟩
    · simp [hf]
    · simp [hf]
    · simp
    · intro j
      simp only [core, nextGeneration, Array.getElem?_push]
      by_cases hij : j = t.slots.size
      · subst hij
        simp [slot]
      · rw [if_neg hij, if_neg hij]
    · intro j hj
      simp [links, Array.getElem?_push, hj]
    · intro j hj
      simp [links, Array.getElem?_push, hj]

/-- The slot `alloc_slot` takes is in range and not in use. -/
theorem Inv.headD_free (h : Inv t n l) :
    t.free.headD t.slots.size ∉ l ++ t.free.tail ∧
      (t.free ≠ [] → t.free.headD t.slots.size < t.slots.size) := by
  cases hf : t.free with
  | nil =>
    refine ⟨fun hm => ?_, by simp⟩
    have := (h.slots t.slots.size).mp (by simpa [hf] using hm)
    omega
  | cons i free =>
    have hnd := h.nodup
    rw [hf] at hnd
    refine ⟨fun hm => (List.nodup_cons.mp (List.nodup_middle.mp hnd)).1 hm, fun _ => ?_⟩
    exact (h.slots i).mp (by simp [hf])

/-- With that slot in use, no slot is in use twice, or in use and free. -/
theorem Inv.headD_nodup (h : Inv t n l) :
    (t.free.headD t.slots.size :: l ++ t.free.tail).Nodup := by
  rw [List.cons_append, List.nodup_cons]
  refine ⟨h.headD_free.1, ?_⟩
  have hnd := h.nodup
  cases hf : t.free with
  | nil => simpa [hf] using hnd
  | cons x free =>
    rw [hf] at hnd
    exact (List.nodup_cons.mp (List.nodup_middle.mp hnd)).2

/-- And every slot is in use or free. -/
theorem Inv.headD_slots (h : Inv t n l) (j : ℕ) :
    j ∈ t.free.headD t.slots.size :: l ++ t.free.tail ↔
      j < max t.slots.size (t.free.headD t.slots.size + 1) := by
  have hj := h.slots j
  cases hf : t.free with
  | nil =>
    rw [hf] at hj
    simp only [List.headD_nil, List.tail_nil, List.append_nil, List.mem_cons] at hj ⊢
    rw [hj]
    omega
  | cons x free =>
    have hlt := h.headD_free.2 (by simp [hf])
    rw [hf] at hj hlt
    rw [List.headD_cons] at hlt ⊢
    rw [List.tail_cons, Nat.max_eq_left (by omega), ← hj]
    exact List.perm_middle.symm.mem_iff

/-- **`alloc_slot` and the insertion that follows it make a new client the most recent one.** -/
theorem Inv.allocSlot_insert (h : Inv t n l) (key : K) (record : ClientRecord R)
    (hnew : ∀ j ∈ l, keyOf t.slots j ≠ some key) (hroom : l.length < t.capacity)
    (hgrow : t.free = [] → t.slots.size < t.capacity) :
    ∃ t' i, t.allocSlot key record = (t', i) ∧ i = t.free.headD t.slots.size ∧
      Inv { t' with index := t'.index.insert key i t'.slots } n (i :: l) ∧
      t'.free = t.free.tail ∧ SameLimits t t' ∧ t'.stats = t.stats ∧
      ∀ j, t'.core j = if j = i then some (key, record, t.nextGeneration i) else t.core j := by
  obtain ⟨p, i, heq, hp⟩ := allocSlot_placed h key record
  have hslot := hp.slot
  obtain ⟨hfresh, hlt⟩ := h.headD_free
  rw [← hslot] at hfresh hlt
  have hil : i ∉ l := fun hm => hfresh (List.mem_append_left _ hm)
  have hip : i < p.slots.size := by
    rw [hp.size]
    omega
  have hcap := h.capacity_lt
  have hsize : p.slots.size ≤ t.capacity := by
    rw [hp.size]
    have := h.bound
    by_cases hf : t.free = []
    · have := hgrow hf
      rw [hf, List.headD_nil] at hslot
      omega
    · have := hlt hf
      omega
  have hs := linkFront_sameRest p i
  have hne : ∀ j ∈ l, j ≠ i := fun j hj he => hil (he ▸ hj)
  have hpl : Threaded linkNil p.links l :=
    h.chain.congr (fun j hj => hp.next j (hne j hj)) (fun j hj => hp.prev j (hne j hj)) hp.head
      hp.last
  have hpsize : ∀ j ∈ l, j < p.slots.size := by
    intro j hj
    rw [hp.size]
    exact lt_of_lt_of_le (h.lt_size hj) (le_max_left _ _)
  have hinil : i ≠ linkNil := by omega
  have hchain : Threaded linkNil (p.linkFront i).links (i :: l) := by
    rw [linkFront_links hpl hpsize hip]
    exact hpl.pushFront hil hinil
  have hkeys : ∀ j ∈ l, keyOf (p.linkFront i).slots j = keyOf t.slots j := by
    intro j hj
    rw [keyOf_eq_core, hs.core, hp.core, if_neg (hne j hj), ← keyOf_eq_core]
  have hbase : Sound (p.linkFront i).index (p.linkFront i).slots n l := by
    rw [hs.index, hp.index]
    exact h.index.congr hkeys
  have hindex := hbase.insert (i := i) hil (by unfold linkNil at hcap; exact (by
      unfold Bucket.empty; omega : i < Bucket.empty))
    (by rw [keyOf_eq_core, hs.core, hp.core, if_pos rfl]; rfl)
    (fun j hj => by rw [hkeys j hj]; exact hnew j hj)
    (by have := h.room; omega)
  refine ⟨p.linkFront i, i, heq, hslot, ⟨hchain, hindex, ?_, ?_, ?_, ?_, ?_, h.width⟩,
    hs.free.trans hp.free, hp.toSameLimits.trans hs.toSameLimits, hs.stats.trans hp.stats,
    fun j => by rw [hs.core, hp.core]⟩
  · dsimp only
    rw [hs.free, hp.free, hslot]
    exact h.headD_nodup
  · intro j
    dsimp only
    rw [hs.free, hp.free, size_of_core hs.core, hp.size, hslot]
    exact h.headD_slots j
  · dsimp only
    rw [size_of_core hs.core, hs.capacity, hp.capacity]
    exact hsize
  · dsimp only
    rw [hs.capacity, hp.capacity]
    exact h.pos
  · dsimp only
    rw [hs.capacity, hp.capacity]
    exact h.room

theorem get_lookup (h : Inv t n l) {key : K} :
    t.index.get key t.slots = some i ↔ i ∈ l ∧ keyOf t.slots i = some key :=
  h.index.get_eq_some_iff

/-- What `slotFor` did to a table whose live slots were `l`: the slot is now `i`, and the live
slots are the last argument. -/
inductive Found [NatCast R] (t : ClientTable K R) (l : List ℕ) (key : K) (now : R)
    (t' : ClientTable K R) (i : ℕ) : List ℕ → Prop
  | known (a b : List ℕ) (live : l = a ++ i :: b) (own : keyOf t.slots i = some key)
      (core : t'.core = t.core) (stats : t'.stats = t.stats) :
      Found t l key now t' i (i :: (a ++ b))
  | fresh (new : ∀ j ∈ l, keyOf t.slots j ≠ some key) (room : l.length < t.capacity)
      (slot : i = t.slots.size)
      (core : ∀ j, t'.core j =
        if j = i then some (key, ClientRecord.new now t.config.burst, 0) else t.core j)
      (stats : t'.stats = t.stats) : Found t l key now t' i (i :: l)
  | reused (a : List ℕ) (live : l = a ++ [i]) (new : ∀ j ∈ l, keyOf t.slots j ≠ some key)
      (full : l.length = t.capacity)
      (core : ∀ j, t'.core j =
        if j = i then some (key, ClientRecord.new now t.config.burst, t.nextGeneration i)
        else t.core j)
      (stats : t'.stats = { t.stats with evicted := t.stats.evicted + 1 }) :
      Found t l key now t' i (i :: a)

/-- The slot found is in use. -/
theorem Found.mem [NatCast R] {t' : ClientTable K R} {l' : List ℕ} {now : R}
    (h : Found t l key now t' i l') : i ∈ l' := by
  cases h with
  | known => exact List.mem_cons_self
  | fresh => exact List.mem_cons_self
  | reused => exact List.mem_cons_self

/-- A hit changes no slot, a new client's record goes into the one it was given. -/
theorem Found.core_cases [NatCast R] {t' : ClientTable K R} {l' : List ℕ} {now : R}
    (h : Found t l key now t' i l') :
    (i ∈ l ∧ keyOf t.slots i = some key) ∧ t'.core = t.core ∨
      (∀ j ∈ l, keyOf t.slots j ≠ some key) ∧ ∃ g, ∀ j, t'.core j =
        if j = i then some (key, ClientRecord.new now t.config.burst, g) else t.core j := by
  cases h with
  | known a b live own core stats =>
    refine .inl ⟨⟨?_, own⟩, core⟩
    rw [live]
    exact List.mem_append_right a List.mem_cons_self
  | fresh new room slot core stats => exact .inr ⟨new, _, core⟩
  | reused a live new full core stats => exact .inr ⟨new, _, core⟩

/-- The slot found is the client's. -/
theorem Found.key_eq [NatCast R] {t' : ClientTable K R} {l' : List ℕ} {now : R}
    (h : Found t l key now t' i l') : keyOf t'.slots i = some key := by
  rcases h.core_cases with ⟨⟨-, own⟩, core⟩ | ⟨-, g, core⟩
  · rw [keyOf_eq_core, core, ← keyOf_eq_core, own]
  · rw [keyOf_eq_core, core, if_pos rfl]
    rfl

/-- The other slots stay as they are. -/
theorem Found.core_of_ne [NatCast R] {t' : ClientTable K R} {l' : List ℕ} {now : R}
    (h : Found t l key now t' i l') {s : ℕ} (hs : s ≠ i) : t'.core s = t.core s := by
  rcases h.core_cases with ⟨-, core⟩ | ⟨-, g, core⟩
  · rw [core]
  · rw [core, if_neg hs]

/-- A client that is there is touched. -/
theorem Settled.slotFor_known [NatCast R] (h : Settled t n l) {key : K} {i : ℕ}
    (hget : t.index.get key t.slots = some i) (now : R) :
    ∃ l', Settled (t.slotFor key now).1 n l' ∧ SameLimits t (t.slotFor key now).1 ∧
      Found t l key now (t.slotFor key now).1 (t.slotFor key now).2 l' := by
  obtain ⟨hi, hk⟩ := (get_lookup h.toInv).mp hget
  obtain ⟨a, b, rfl⟩ := List.append_of_mem hi
  have heq : t.slotFor key now = (t.touch i, i) := by simp [ClientTable.slotFor, hget]
  have hs := touch_sameRest t i
  rw [heq]
  exact ⟨_, ⟨h.toInv.touch, hs.free.trans h.free⟩, hs.toSameLimits,
    .known a b rfl hk hs.core hs.stats⟩

/-- In a full table the last client makes room for a new one. -/
theorem Settled.slotFor_full [NatCast R] (h : Settled t n l) {key : K}
    (hget : t.index.get key t.slots = none) (hnew : ∀ j ∈ l, keyOf t.slots j ≠ some key)
    (hfull : t.capacity ≤ t.len) (now : R) :
    ∃ l', Settled (t.slotFor key now).1 n l' ∧ SameLimits t (t.slotFor key now).1 ∧
      Found t l key now (t.slotFor key now).1 (t.slotFor key now).2 l' := by
  have hlen : t.len = l.length := h.index.len
  have hsize := h.length
  have hbound := h.bound
  have hne : l ≠ [] := by
    rintro rfl
    have := h.pos
    simp only [List.length_nil] at hlen
    omega
  obtain ⟨a, v, rfl⟩ := (List.eq_nil_or_concat l).resolve_left hne
  rw [List.concat_eq_append] at *
  obtain ⟨hinv, hfree, hcore, hlim, hstats⟩ := h.toInv.evictOne
  have hkeys : ∀ j, keyOf t.evictOne.slots j = keyOf t.slots j := by
    intro j
    rw [keyOf_eq_core, hcore, ← keyOf_eq_core]
  rw [h.free] at hfree
  have hroom : a.length < t.evictOne.capacity := by
    rw [hlim.capacity]
    simp only [List.length_append, List.length_singleton] at hsize
    omega
  obtain ⟨t', i, heq, hi, hset, hfree', hlim', hstats', hcore'⟩ :=
    hinv.allocSlot_insert key (ClientRecord.new now t.evictOne.config.burst)
      (fun j hj => by rw [hkeys]; exact hnew j (List.mem_append_left _ hj)) hroom
      (by simp [hfree])
  have hi' : i = v := by simpa [hfree] using hi
  subst hi'
  have hval : t.slotFor key now
      = ({ t' with index := t'.index.insert key i t'.slots }, i) := by
    simp only [ClientTable.slotFor, hget, if_pos hfull, heq]
  have hgen : t.evictOne.nextGeneration i = t.nextGeneration i := by
    unfold nextGeneration
    rw [hcore]
  have hlims := hlim.trans hlim'
  rw [hval]
  refine ⟨_, ⟨hset, by rw [hfree', hfree]; rfl⟩,
    ⟨hlims.capacity, hlims.config, hlims.refillPerS, hlims.globalTokens, hlims.globalLast,
      hlims.globalDropsSinceKod⟩,
    .reused a rfl hnew (by omega) (fun j => ?_) (hstats'.trans hstats)⟩
  rw [← hgen, ← hlim.config, ← hcore]
  exact hcore' j

/-- While there is room, a new client takes a slot behind the others. -/
theorem Settled.slotFor_room [NatCast R] (h : Settled t n l) {key : K}
    (hget : t.index.get key t.slots = none) (hnew : ∀ j ∈ l, keyOf t.slots j ≠ some key)
    (hroom : ¬t.capacity ≤ t.len) (now : R) :
    ∃ l', Settled (t.slotFor key now).1 n l' ∧ SameLimits t (t.slotFor key now).1 ∧
      Found t l key now (t.slotFor key now).1 (t.slotFor key now).2 l' := by
  have hlen : t.len = l.length := h.index.len
  have hsize := h.length
  obtain ⟨t', i, heq, hi, hset, hfree', hlim', hstats', hcore'⟩ :=
    h.toInv.allocSlot_insert key (ClientRecord.new now t.config.burst) hnew
      (by omega) (fun _ => by omega)
  have hi' : i = t.slots.size := by simpa [h.free] using hi
  have hval : t.slotFor key now
      = ({ t' with index := t'.index.insert key i t'.slots }, i) := by
    simp only [ClientTable.slotFor, hget, if_neg hroom, heq]
  have hgen : t.nextGeneration i = 0 := by
    simp [nextGeneration, core_eq_none_iff.mpr hi'.ge]
  rw [hval]
  refine ⟨_, ⟨hset, by rw [hfree', h.free]; rfl⟩,
    ⟨hlim'.capacity, hlim'.config, hlim'.refillPerS, hlim'.globalTokens, hlim'.globalLast,
      hlim'.globalDropsSinceKod⟩,
    .fresh hnew (by omega) hi' (fun j => ?_) hstats'⟩
  rw [← hgen]
  exact hcore' j

/-- **A hit moves its slot to the front, a new client takes a slot of its own: a new one while
there is room, else the least recently used client's.** -/
theorem Settled.slotFor [NatCast R] (h : Settled t n l) (key : K) (now : R) :
    ∃ l', Settled (t.slotFor key now).1 n l' ∧ SameLimits t (t.slotFor key now).1 ∧
      Found t l key now (t.slotFor key now).1 (t.slotFor key now).2 l' := by
  cases hget : t.index.get key t.slots with
  | some i => exact h.slotFor_known hget now
  | none =>
    have hnew : ∀ j ∈ l, keyOf t.slots j ≠ some key := by
      intro j hj hk
      rw [(get_lookup h.toInv).mpr ⟨hj, hk⟩] at hget
      cases hget
    by_cases hfull : t.capacity ≤ t.len
    · exact h.slotFor_full hget hnew hfull now
    · exact h.slotFor_room hget hnew hfull now

/-! ## Operations on records -/

/-- Only records, the limiter's state and the counters may differ. -/
structure SameShape (t t' : ClientTable K R) : Prop where
  links : t'.links = t.links
  names : ∀ i, (t'.core i).map (fun c => (c.1, c.2.2)) = (t.core i).map fun c => (c.1, c.2.2)
  index : t'.index = t.index
  free : t'.free = t.free
  capacity : t'.capacity = t.capacity
  config : t'.config = t.config
  refillPerS : t'.refillPerS = t.refillPerS

theorem SameShape.refl (t : ClientTable K R) : SameShape t t :=
  ⟨rfl, fun _ => rfl, rfl, rfl, rfl, rfl, rfl⟩

theorem SameShape.trans {a b c : ClientTable K R} (h : SameShape a b) (h' : SameShape b c) :
    SameShape a c :=
  ⟨h'.links.trans h.links, fun i => (h'.names i).trans (h.names i), h'.index.trans h.index,
    h'.free.trans h.free, h'.capacity.trans h.capacity, h'.config.trans h.config,
    h'.refillPerS.trans h.refillPerS⟩

theorem SameShape.keyOf {t' : ClientTable K R} (h : SameShape t t') (i : ℕ) :
    keyOf t'.slots i = keyOf t.slots i := by
  have := congrArg (Option.map Prod.fst) (h.names i)
  rw [Option.map_map, Option.map_map] at this
  rw [keyOf_eq_core, keyOf_eq_core]
  exact this

theorem SameShape.size {t' : ClientTable K R} (h : SameShape t t') :
    t'.slots.size = t.slots.size := by
  have hiff : ∀ i, i < t'.slots.size ↔ i < t.slots.size := by
    intro i
    have := congrArg Option.isSome (h.names i)
    rw [Option.isSome_map, Option.isSome_map] at this
    rw [← core_isSome_iff, ← core_isSome_iff, this]
  have h1 := hiff t'.slots.size
  have h2 := hiff t.slots.size
  omega

theorem Settled.sameShape {t' : ClientTable K R} (h : Settled t n l) (hs : SameShape t t') :
    Settled t' n l where
  chain := by rw [hs.links]; exact h.chain
  index := by
    rw [hs.index]
    exact h.index.congr fun i _ => hs.keyOf i
  nodup := by rw [hs.free]; exact h.nodup
  slots := by
    intro i
    rw [hs.free, hs.size]
    exact h.slots i
  bound := by rw [hs.size, hs.capacity]; exact h.bound
  pos := by rw [hs.capacity]; exact h.pos
  room := by rw [hs.capacity]; exact h.room
  width := h.width
  free := hs.free.trans h.free

theorem setRecord_sameShape (t : ClientTable K R) (i : ℕ)
    (f : ClientRecord R → ClientRecord R) : SameShape t (t.setRecord i f) := by
  refine ⟨links_setRecord t i f, fun j => ?_, rfl, rfl, rfl, rfl, rfl⟩
  rw [core_setRecord]
  split
  · simp [Function.comp_def]
  · rfl

theorem stats_sameShape (t : ClientTable K R) (stats : ServerStats) :
    SameShape t { t with stats := stats } := ⟨rfl, fun _ => rfl, rfl, rfl, rfl, rfl, rfl⟩

/-- What the rate limiter reads and writes of a record. -/
def limits (r : ClientRecord R) : R × R × ℕ × ℕ × ℕ × ℕ :=
  (r.lastSeen, r.tokens, r.requests, r.responses, r.dropped, r.dropsSinceKod)

/-- Only the interleaved mode's fields and its counters may differ. -/
structure Quiet (t t' : ClientTable K R) : Prop extends SameShape t t' where
  limits : ∀ i, (t'.core i).map (fun c => limits c.2.1) = (t.core i).map fun c => limits c.2.1
  globalTokens : t'.globalTokens = t.globalTokens
  globalLast : t'.globalLast = t.globalLast
  globalDropsSinceKod : t'.globalDropsSinceKod = t.globalDropsSinceKod
  requests : t'.stats.requests = t.stats.requests
  responses : t'.stats.responses = t.stats.responses
  dropped : t'.stats.droppedRateLimit = t.stats.droppedRateLimit
  kissOfDeath : t'.stats.kissOfDeath = t.stats.kissOfDeath
  evicted : t'.stats.evicted = t.stats.evicted

theorem Quiet.refl (t : ClientTable K R) : Quiet t t :=
  ⟨.refl t, fun _ => rfl, rfl, rfl, rfl, rfl, rfl, rfl, rfl, rfl⟩

theorem setRecord_quiet (t : ClientTable K R) (i : ℕ) {f : ClientRecord R → ClientRecord R}
    (hf : ∀ r, limits (f r) = limits r) : Quiet t (t.setRecord i f) := by
  refine ⟨setRecord_sameShape t i f, fun j => ?_, rfl, rfl, rfl, rfl, rfl, rfl, rfl, rfl⟩
  rw [core_setRecord]
  split
  · simp [Function.comp_def, hf]
  · rfl

theorem responseModeAt_quiet (t : ClientTable K R) (handle : ClientHandle)
    (origin : NtpTimestamp) : Quiet t (t.responseModeAt handle origin).1 := by
  unfold responseModeAt
  split
  · exact .refl t
  · split
    · exact .refl t
    · next i _ _ slot _ =>
      dsimp only
      have hq := setRecord_quiet t i (f := fun r =>
        { r with interleavedNow := origin == slot.record.lastReceiveSent && !origin.isZero })
        fun _ => rfl
      split
      · exact .refl t
      · split
        · exact ⟨hq.toSameShape.trans (stats_sameShape _ _), hq.limits, rfl, rfl, rfl, rfl, rfl,
            rfl, rfl, rfl⟩
        · exact hq

theorem noteResponseAt_quiet (t : ClientTable K R) (handle : ClientHandle)
    (receive sent : NtpTimestamp) : Quiet t (t.noteResponseAt handle receive sent) := by
  unfold noteResponseAt
  split
  · exact .refl t
  · exact setRecord_quiet t _ fun _ => rfl

theorem noteTransmitAt_quiet (t : ClientTable K R) (handle : ClientHandle)
    (transmit : NtpTimestamp) : Quiet t (t.noteTransmitAt handle transmit) := by
  unfold noteTransmitAt
  split
  · exact .refl t
  · exact setRecord_quiet t _ fun _ => rfl

theorem responseMode_quiet (t : ClientTable K R) (key : K) (origin : NtpTimestamp) :
    Quiet t (t.responseMode key origin).1 := by
  unfold responseMode
  split
  · exact responseModeAt_quiet t _ _
  · exact .refl t

theorem noteResponse_quiet (t : ClientTable K R) (key : K) (receive sent : NtpTimestamp) :
    Quiet t (t.noteResponse key receive sent) := by
  unfold noteResponse
  split
  · exact noteResponseAt_quiet t _ _ _
  · exact .refl t

theorem noteTransmit_quiet (t : ClientTable K R) (key : K) (transmit : NtpTimestamp) :
    Quiet t (t.noteTransmit key transmit) := by
  unfold noteTransmit
  split
  · exact setRecord_quiet t _ fun _ => rfl
  · exact .refl t

/-! ## Admission -/

section Admission

variable [Zero R] [One R] [Add R] [Sub R] [Mul R] [NatCast R] [Max R] [Min R]
  [LT R] [LE R] [DecidableLT R] [DecidableLE R]

/-- The verdict on a refilled record: a response for a token, else a drop, or its
Kiss-o'-Death when `period` drops have gone by. -/
def settle (r : ClientRecord R) (period : ℕ) : ClientRecord R × Disposition :=
  if 1 ≤ r.tokens then
    ({ r with tokens := r.tokens - 1, responses := r.responses + 1 }, .respond)
  else if period ≤ r.dropsSinceKod + 1 then
    ({ r with dropped := r.dropped + 1, dropsSinceKod := 0 }, .kissOfDeath)
  else
    ({ r with dropped := r.dropped + 1, dropsSinceKod := r.dropsSinceKod + 1 }, .drop)

/-- The counters a disposition moves. -/
def tally (s : ServerStats) : Disposition → ServerStats
  | .respond => { s with responses := s.responses + 1 }
  | .kissOfDeath =>
    { s with droppedRateLimit := s.droppedRateLimit + 1, kissOfDeath := s.kissOfDeath + 1 }
  | .drop => { s with droppedRateLimit := s.droppedRateLimit + 1 }

/-- The record of a request charged to a client. -/
def chargedRecord (t : ClientTable K R) (r : ClientRecord R) (now : R) :
    ClientRecord R × Disposition :=
  settle (r.refill now t.refillPerS t.config.burst) t.config.period

/-- **A charge is the verdict on the refilled record.** -/
theorem charge_eq {c : K × ClientRecord R × ℕ} (hc : t.core i = some c) (now : R) :
    let verdict := t.chargedRecord c.2.1 now
    t.charge i now =
      ({ t.setRecord i fun _ => verdict.1 with
          globalTokens :=
            if verdict.2 = .respond then t.globalTokens - 1 else t.globalTokens
          stats := tally t.stats verdict.2 }, verdict.2) := by
  obtain ⟨s, hs, rfl⟩ : ∃ s, t.slots[i]? = some s ∧ (s.key, s.record, s.generation) = c := by
    simpa [core] using hc
  dsimp only
  unfold charge chargedRecord settle
  simp only [hs]
  by_cases h1 : 1 ≤ (s.record.refill now t.refillPerS t.config.burst).tokens
  · rw [if_pos h1, if_pos h1]
    rfl
  · rw [if_neg h1, if_neg h1]
    by_cases h2 : t.config.period
        ≤ (s.record.refill now t.refillPerS t.config.burst).dropsSinceKod + 1
    · rw [if_pos h2, if_pos h2]
      rfl
    · rw [if_neg h2, if_neg h2]
      rfl

theorem core_charge {c : K × ClientRecord R × ℕ} (hc : t.core i = some c) (now : R) (j : ℕ) :
    (t.charge i now).1.core j
      = if i = j then some (c.1, (t.chargedRecord c.2.1 now).1, c.2.2) else t.core j := by
  rw [charge_eq hc]
  refine (core_setRecord t i j fun _ => (t.chargedRecord c.2.1 now).1).trans ?_
  split
  · next hij =>
    subst hij
    rw [hc]
    rfl
  · rfl

theorem stats_charge {c : K × ClientRecord R × ℕ} (hc : t.core i = some c) (now : R) :
    (t.charge i now).1.stats = tally t.stats (t.charge i now).2 := by
  rw [charge_eq hc]

theorem disposition_charge {c : K × ClientRecord R × ℕ} (hc : t.core i = some c) (now : R) :
    (t.charge i now).2 = (t.chargedRecord c.2.1 now).2 := by
  rw [charge_eq hc]

theorem globalTokens_charge {c : K × ClientRecord R × ℕ} (hc : t.core i = some c) (now : R) :
    (t.charge i now).1.globalTokens
      = if (t.charge i now).2 = .respond then t.globalTokens - 1 else t.globalTokens := by
  rw [charge_eq hc]

theorem lastSeen_chargedRecord (t : ClientTable K R) (r : ClientRecord R) (now : R) :
    (t.chargedRecord r now).1.lastSeen = now := by
  unfold chargedRecord settle
  split
  · rfl
  · split <;> rfl

theorem evicted_tally (s : ServerStats) (d : Disposition) : (tally s d).evicted = s.evicted := by
  cases d <;> rfl

theorem charge_sameShape (t : ClientTable K R) (i : ℕ) (now : R) :
    SameShape t (t.charge i now).1 := by
  cases hc : t.core i with
  | none =>
    have : t.slots[i]? = none := by simpa [core] using hc
    unfold charge
    simp only [this]
    exact .refl t
  | some c =>
    have hs := setRecord_sameShape t i fun _ => (t.chargedRecord c.2.1 now).1
    rw [charge_eq hc]
    exact ⟨hs.links, hs.names, rfl, rfl, rfl, rfl, rfl⟩

theorem openRequest_sameShape (t : ClientTable K R) (now : R) :
    SameShape t (t.openRequest now) := by
  unfold openRequest
  dsimp only
  split <;> exact ⟨rfl, fun _ => rfl, rfl, rfl, rfl, rfl, rfl⟩

@[simp] theorem core_openRequest (t : ClientTable K R) (now : R) :
    (t.openRequest now).core = t.core := by
  unfold openRequest
  dsimp only
  split <;> rfl

@[simp] theorem stats_openRequest (t : ClientTable K R) (now : R) :
    (t.openRequest now).stats = { t.stats with requests := t.stats.requests + 1 } := by
  unfold openRequest
  dsimp only
  split <;> rfl

theorem dropGlobal_sameShape (t : ClientTable K R) : SameShape t t.dropGlobal.1 := by
  unfold dropGlobal
  dsimp only
  split <;> exact ⟨rfl, fun _ => rfl, rfl, rfl, rfl, rfl, rfl⟩

@[simp] theorem core_dropGlobal (t : ClientTable K R) : t.dropGlobal.1.core = t.core := by
  unfold dropGlobal
  dsimp only
  split <;> rfl

/-- A request the global limiter rejects leaves every client alone. -/
theorem admitHandle_rejected (key : K) {now : R} (hg : t.passesGlobal now = false) :
    t.admitHandle key now
      = ((t.openRequest now).dropGlobal.1, (t.openRequest now).dropGlobal.2,
          ClientHandle.invalid) := by
  unfold admitHandle
  rw [hg]
  rfl

/-- A request the global limiter passes takes a slot and is charged to it. -/
theorem admitHandle_passed (key : K) {now : R} (hg : t.passesGlobal now = true) :
    let found := (t.openRequest now).slotFor key now
    t.admitHandle key now
      = ((found.1.charge found.2 now).1, (found.1.charge found.2 now).2,
          found.1.handleFor found.2) := by
  unfold admitHandle
  rw [hg]
  rfl

theorem get_openRequest (t : ClientTable K R) (key : K) (now : R) :
    (t.openRequest now).index.get key (t.openRequest now).slots = t.index.get key t.slots := by
  unfold openRequest
  dsimp only
  split <;> rfl

/-- The admission's effect on the structures. -/
theorem Settled.admitHandle (h : Settled t n l) (key : K) {now : R}
    (hg : t.passesGlobal now = true) :
    ∃ t' i l', Settled t' n l' ∧ SameLimits (t.openRequest now) t' ∧
      Found (t.openRequest now) l key now t' i l' ∧ SameShape t' (t.admitHandle key now).1 ∧
      t.admitHandle key now = ((t'.charge i now).1, (t'.charge i now).2, t'.handleFor i) ∧
      (t.openRequest now).slotFor key now = (t', i) := by
  obtain ⟨l', hset, hlim, hfound⟩ :=
    (h.sameShape (openRequest_sameShape t now)).slotFor key now
  have hadm := admitHandle_passed key hg
  refine ⟨_, _, l', hset, hlim, hfound, ?_, hadm, rfl⟩
  rw [hadm]
  exact charge_sameShape _ _ _

/-- A new client's admission is an allocation of its slot, a known client's is not. -/
theorem allocated_admit (h : Settled t n l) {key : K} {now : R} {t' : ClientTable K R}
    {l' : List ℕ} (hg : t.passesGlobal now = true)
    (hslot : (t.openRequest now).slotFor key now = (t', i))
    (hf : Found (t.openRequest now) l key now t' i l') :
    t.allocated (.admitHandle key now) =
      if keyOf t.slots i = some key ∧ i ∈ l then none else some i := by
  have hopen := h.sameShape (openRequest_sameShape t now)
  have hkeys : ∀ j, keyOf (t.openRequest now).slots j = keyOf t.slots j :=
    (openRequest_sameShape t now).keyOf
  simp only [allocated, hg, true_and, ← get_openRequest t key now, hslot]
  cases hf with
  | known a b live own core stats =>
    have hi : i ∈ l := by simp [live]
    rw [(get_lookup hopen.toInv).mpr ⟨hi, own⟩, ← hkeys]
    simp [own, hi]
  | fresh new room slot core stats =>
    rw [hopen.index.get_none new, if_pos rfl, if_neg]
    exact fun hi => new i hi.2 (by rw [hkeys]; exact hi.1)
  | reused a live new full core stats =>
    rw [hopen.index.get_none new, if_pos rfl, if_neg]
    exact fun hi => new i hi.2 (by rw [hkeys]; exact hi.1)

theorem rejected_sameShape (key : K) {now : R} (hg : t.passesGlobal now = false) :
    SameShape t (t.admitHandle key now).1 := by
  rw [admitHandle_rejected key hg]
  exact (openRequest_sameShape t now).trans (dropGlobal_sameShape _)

/-! ## Runs -/

/-- An operation other than an admission touches neither the structures nor the limiter. -/
theorem step_quiet {op : Op K R} (hop : op.Other) : Quiet t (t.step op) := by
  cases op with
  | admitHandle key now => exact absurd rfl (hop key now)
  | responseMode key origin => exact responseMode_quiet t key origin
  | responseModeAt handle origin => exact responseModeAt_quiet t handle origin
  | noteResponse key receive sent => exact noteResponse_quiet t key receive sent
  | noteResponseAt handle receive sent => exact noteResponseAt_quiet t handle receive sent
  | noteTransmit key transmit => exact noteTransmit_quiet t key transmit
  | noteTransmitAt handle transmit => exact noteTransmitAt_quiet t handle transmit
  | noteRefused =>
    exact ⟨stats_sameShape t _, fun _ => rfl, rfl, rfl, rfl, rfl, rfl, rfl, rfl, rfl⟩

/-- **Every operation keeps the invariant.** -/
theorem Settled.step (h : Settled t n l) (op : Op K R) : ∃ l', Settled (t.step op) n l' := by
  rcases op.admitHandle_or_other with ⟨key, now, rfl⟩ | hop
  · cases hg : t.passesGlobal now with
    | false => exact ⟨l, h.sameShape (rejected_sameShape key hg)⟩
    | true =>
      obtain ⟨t', i, l', hset, -, -, hsame, -, -⟩ := h.admitHandle key hg
      exact ⟨l', hset.sameShape hsame⟩
  · exact ⟨l, h.sameShape (step_quiet hop).toSameShape⟩

theorem Settled.run (h : Settled t n l) (ops : List (Op K R)) :
    ∃ l', Settled (t.run ops) n l' := by
  induction ops generalizing t l with
  | nil => exact ⟨l, h⟩
  | cons op ops ih =>
    obtain ⟨l', h'⟩ := h.step op
    exact ih h'

end Admission

theorem new_capacity [NatCast R] [Pow R ℤ] {capacity : ℕ} {config : RateLimitConfig R}
    {hasher : K → UInt64} (h : new capacity config hasher = some t) :
    t.capacity = max capacity 1 := by
  unfold new at h
  simp only [Option.map_eq_some_iff] at h
  obtain ⟨ix, -, rfl⟩ := h
  rfl

theorem new_stats [NatCast R] [Pow R ℤ] {capacity : ℕ} {config : RateLimitConfig R}
    {hasher : K → UInt64} (h : new capacity config hasher = some t) :
    t.stats = ⟨0, 0, 0, 0, 0, 0, 0⟩ := by
  unfold new at h
  simp only [Option.map_eq_some_iff] at h
  obtain ⟨ix, -, rfl⟩ := h
  rfl

theorem new_limits [NatCast R] [Pow R ℤ] {capacity : ℕ} {config : RateLimitConfig R}
    {hasher : K → UInt64} (h : new capacity config hasher = some t) :
    t.config = config ∧ t.refillPerS = ((2 : ℕ) : R) ^ (-config.intervalLog2) ∧
      t.globalTokens = config.globalBurst ∧ t.globalLast = none ∧ t.globalDropsSinceKod = 0 := by
  unfold new at h
  simp only [Option.map_eq_some_iff] at h
  obtain ⟨ix, -, rfl⟩ := h
  exact ⟨rfl, rfl, rfl, rfl, rfl⟩

/-- **A fresh table is settled, and empty.** -/
theorem new_settled [NatCast R] [Pow R ℤ] {capacity : ℕ} {config : RateLimitConfig R}
    {hasher : K → UInt64} (h : new capacity config hasher = some t) :
    ∃ n, ∃ _ : NeZero n, Settled t n [] := by
  unfold new at h
  simp only [Option.map_eq_some_iff] at h
  obtain ⟨ix, hix, rfl⟩ := h
  obtain ⟨n, hn, hroom, hwidth, -, hsound⟩ :=
    withCapacity_sound (ρ := ClientRecord R) hix
  rw [max_eq_left (le_max_right capacity 1)] at hroom
  refine ⟨n, hn, ⟨threaded_empty _ rfl rfl, hsound _, by simp, by simp, by simp, ?_, hroom,
    hwidth⟩, rfl⟩
  exact le_max_right _ _

end RustyTime.ClientTable
