import Mathlib.Data.List.Basic
import Mathlib.Data.List.Nodup
import Mathlib.Logic.Function.Basic

/-!
# Doubly linked lists over link functions

The links of an intrusive doubly linked list: a successor and a predecessor for each node, the
two ends, and a value `nil` that is no node. `Threaded nil s l` says that the links spell the
list `l` in both directions.

* `Threaded.unlink` — taking a node out by four conditional writes removes it from the list
* `Threaded.pushFront` — linking a new node in at the head conses it
* `Threaded.unique` — the links spell no other list
* `Threaded.next_prev` — the two link functions are inverse to each other inside the list
-/

namespace Infra.Chain

set_option linter.unusedSectionVars false

variable {α : Type*} [DecidableEq α] {nil : α}

/-- The links of a doubly linked list. -/
@[ext]
structure Links (α : Type*) where
  next : α → α
  prev : α → α
  head : α
  last : α

namespace Links

/-- Take a node out. -/
def unlink (nil : α) (s : Links α) (x : α) : Links α where
  next := if s.prev x = nil then s.next else Function.update s.next (s.prev x) (s.next x)
  prev := if s.next x = nil then s.prev else Function.update s.prev (s.next x) (s.prev x)
  head := if s.prev x = nil then s.next x else s.head
  last := if s.next x = nil then s.prev x else s.last

/-- Link a node in at the head. -/
def pushFront (nil : α) (s : Links α) (x : α) : Links α where
  next := Function.update s.next x s.head
  prev :=
    if s.head = nil then Function.update s.prev x nil
    else Function.update (Function.update s.prev x nil) s.head x
  head := x
  last := if s.head = nil then x else s.last

end Links

/-- The links spell `l`, from the head by `next` and from the last node by `prev`. -/
structure Threaded (nil : α) (s : Links α) (l : List α) : Prop where
  nodup : l.Nodup
  fresh : nil ∉ l
  head_eq : s.head = l.headD nil
  last_eq : s.last = l.getLastD nil
  next_eq : ∀ a x b, l = a ++ x :: b → s.next x = b.headD nil
  prev_eq : ∀ a x b, l = a ++ x :: b → s.prev x = a.getLastD nil

variable {s s' : Links α} {l : List α}

/-! ## Reading the links -/

theorem threaded_empty (s : Links α) (hh : s.head = nil) (hl : s.last = nil) :
    Threaded nil s [] where
  nodup := List.nodup_nil
  fresh := by simp
  head_eq := hh
  last_eq := hl
  next_eq := by simp
  prev_eq := by simp

/-- Only the links of the nodes in the list matter. -/
theorem Threaded.congr (h : Threaded nil s l) (hn : ∀ x ∈ l, s'.next x = s.next x)
    (hp : ∀ x ∈ l, s'.prev x = s.prev x) (hh : s'.head = s.head) (hl : s'.last = s.last) :
    Threaded nil s' l where
  nodup := h.nodup
  fresh := h.fresh
  head_eq := hh.trans h.head_eq
  last_eq := hl.trans h.last_eq
  next_eq := fun a x b hab => (hn x (by simp [hab])).trans (h.next_eq a x b hab)
  prev_eq := fun a x b hab => (hp x (by simp [hab])).trans (h.prev_eq a x b hab)

theorem getLastD_append_cons (a b : List α) (x d : α) :
    (a ++ x :: b).getLastD d = b.getLastD x := by
  rcases List.eq_nil_or_concat b with rfl | ⟨b, y, rfl⟩
  · simp
  · rw [List.concat_eq_append, ← List.cons_append, ← List.append_assoc, List.getLastD_concat,
      List.getLastD_concat]

theorem headD_eq_nil_iff (hf : nil ∉ l) : l.headD nil = nil ↔ l = [] := by
  cases l with
  | nil => simp
  | cons x l => simpa using fun h : x = nil => hf (by simp [h])

theorem getLastD_eq_nil_iff (hf : nil ∉ l) : l.getLastD nil = nil ↔ l = [] := by
  rcases List.eq_nil_or_concat l with rfl | ⟨l, x, rfl⟩
  · simp
  · simpa using fun h : x = nil => hf (by simp [h])

theorem Threaded.head_eq_nil_iff (h : Threaded nil s l) : s.head = nil ↔ l = [] := by
  rw [h.head_eq, headD_eq_nil_iff h.fresh]

/-- The link to a neighbour is undone by the neighbour's link back. -/
theorem Threaded.next_prev (h : Threaded nil s l) {x y : α} (hx : x ∈ l) (hy : y ∈ l) :
    s.next x = y ↔ s.prev y = x := by
  constructor
  · intro hxy
    obtain ⟨a, b, rfl⟩ := List.append_of_mem hx
    have hb := h.next_eq a x b rfl
    cases b with
    | nil =>
      rw [List.headD_nil, hxy] at hb
      exact absurd (hb ▸ hy) h.fresh
    | cons z b =>
      rw [List.headD_cons, hxy] at hb
      subst hb
      rw [h.prev_eq (a ++ [x]) y b (by simp)]
      simp
  · intro hyx
    obtain ⟨a, b, rfl⟩ := List.append_of_mem hy
    have ha := h.prev_eq a y b rfl
    rcases List.eq_nil_or_concat a with rfl | ⟨a, z, rfl⟩
    · rw [List.getLastD_nil, hyx] at ha
      exact absurd (ha ▸ hx) h.fresh
    · rw [hyx] at ha
      have hz : x = z := by simpa using ha
      subst hz
      rw [h.next_eq a x (y :: b) (by simp)]
      simp

/-- From a common node on, two lists the links spell are the same. -/
theorem Threaded.suffix_unique {a b c d : List α} (h : Threaded nil s (a ++ b))
    (h' : Threaded nil s (c ++ d)) (hh : b.headD nil = d.headD nil) : b = d := by
  induction b generalizing a c d with
  | nil =>
    have hf : nil ∉ d := fun hm => h'.fresh (by simp [hm])
    exact ((headD_eq_nil_iff hf).mp hh.symm).symm
  | cons x b ih =>
    cases d with
    | nil => exact absurd (by simp [show x = nil from hh]) h.fresh
    | cons y d =>
      have hxy : x = y := hh
      subst hxy
      have hn := (h.next_eq a x b rfl).symm.trans (h'.next_eq c x d rfl)
      rw [ih (a := a ++ [x]) (c := c ++ [x]) (by simpa using h) (by simpa using h') hn]

/-- **The links spell one list.** -/
theorem Threaded.unique {l' : List α} (h : Threaded nil s l) (h' : Threaded nil s l') : l = l' :=
  h.suffix_unique (a := []) (c := []) h' (h.head_eq.symm.trans h'.head_eq)

/-! ## Taking a node out -/

theorem getLastD_mem {a : List α} (ha : a ≠ []) (d : α) : a.getLastD d ∈ a := by
  rcases List.eq_nil_or_concat a with rfl | ⟨a, x, rfl⟩
  · exact absurd rfl ha
  · simp

theorem headD_mem {a : List α} (ha : a ≠ []) (d : α) : a.headD d ∈ a := by
  cases a with
  | nil => exact absurd rfl ha
  | cons x a => simp

/-- The two ways a node can sit in a list that is split in two. -/
theorem split_cases {a b c d : List α} {y : α} (h : a ++ b = c ++ y :: d) :
    (∃ e, a = c ++ y :: e ∧ d = e ++ b) ∨ (∃ e, c = a ++ e ∧ b = e ++ y :: d) := by
  rcases List.append_eq_append_iff.mp h with ⟨e, hc, hb⟩ | ⟨e, ha, hd⟩
  · exact .inr ⟨e, hc, hb⟩
  · cases e with
    | nil => exact .inr ⟨[], by simpa using ha.symm, by simpa using hd.symm⟩
    | cons z e =>
      simp only [List.cons_append, List.cons.injEq] at hd
      obtain ⟨rfl, hd⟩ := hd
      exact .inl ⟨e, ha, hd⟩

/-- Only the node before the one taken out has its forward link rewritten. -/
theorem Links.unlink_next_of_ne {x y : α} (h : s.prev x ≠ y) :
    (s.unlink nil x).next y = s.next y := by
  unfold Links.unlink
  dsimp only
  split
  · rfl
  · exact Function.update_of_ne h.symm _ _

/-- Only the node after it has its backward link rewritten. -/
theorem Links.unlink_prev_of_ne {x y : α} (h : s.next x ≠ y) :
    (s.unlink nil x).prev y = s.prev y := by
  unfold Links.unlink
  dsimp only
  split
  · rfl
  · exact Function.update_of_ne h.symm _ _

/-- What a chain is on both sides of one of its nodes. -/
structure Around (nil : α) (s : Links α) (a : List α) (x : α) (b : List α) : Prop where
  fresh_before : nil ∉ a
  fresh_after : nil ∉ b
  nodup_before : a.Nodup
  nodup_after : b.Nodup
  disjoint : ∀ y ∈ a, y ∉ b
  next_eq : s.next x = b.headD nil
  prev_eq : s.prev x = a.getLastD nil

theorem Threaded.around {a b : List α} {x : α} (h : Threaded nil s (a ++ x :: b)) :
    Around nil s a x b := by
  have hnd := h.nodup
  rw [List.nodup_append] at hnd
  obtain ⟨hna, hnxb, hdisj⟩ := hnd
  exact
    { fresh_before := fun hm => h.fresh (by simp [hm])
      fresh_after := fun hm => h.fresh (by simp [hm])
      nodup_before := hna
      nodup_after := (List.nodup_cons.mp hnxb).2
      disjoint := fun y hy hb => hdisj y hy y (by simp [hb]) rfl
      next_eq := h.next_eq a x b rfl
      prev_eq := h.prev_eq a x b rfl }

theorem Around.prev_eq_nil {a b : List α} {x : α} (h : Around nil s a x b) :
    s.prev x = nil ↔ a = [] := by
  rw [h.prev_eq, getLastD_eq_nil_iff h.fresh_before]

theorem Around.next_eq_nil {a b : List α} {x : α} (h : Around nil s a x b) :
    s.next x = nil ↔ b = [] := by
  rw [h.next_eq, headD_eq_nil_iff h.fresh_after]

/-- The forward links after a node is taken out. -/
theorem Threaded.unlink_next {a b c d : List α} {x y : α} (h : Threaded nil s (a ++ x :: b))
    (hy : a ++ b = c ++ y :: d) : (s.unlink nil x).next y = d.headD nil := by
  have hx := h.around
  rcases split_cases hy with ⟨e, rfl, rfl⟩ | ⟨e, rfl, rfl⟩
  · -- before the hole: only the node just before it is rewritten
    have hold := h.next_eq c y (e ++ x :: b) (by simp)
    rcases List.eq_nil_or_concat e with rfl | ⟨e, z, rfl⟩
    · have hyp : s.prev x = y := by rw [hx.prev_eq]; simp
      have hyn : y ≠ nil := fun he => hx.fresh_before (by simp [he])
      simp [Links.unlink, hyp, hyn, hx.next_eq]
    · have hyz : y ≠ z := by
        rintro rfl
        have hnodup := hx.nodup_before
        simp [List.nodup_append] at hnodup
      have hyp : s.prev x ≠ y := by
        rw [hx.prev_eq, List.concat_eq_append, getLastD_append_cons, List.getLastD_concat]
        exact hyz.symm
      rw [Links.unlink_next_of_ne hyp, hold]
      cases e <;> simp
  · -- past the hole no forward link changes
    have hold := h.next_eq (a ++ x :: e) y d (by simp)
    have hya : y ∉ a := fun hm => hx.disjoint y hm (by simp)
    have hyp : s.prev x ≠ y := by
      rintro rfl
      by_cases ha : a = []
      · exact hx.fresh_after (by simp [hx.prev_eq_nil.mpr ha])
      · exact hya (hx.prev_eq ▸ getLastD_mem ha nil)
    rw [Links.unlink_next_of_ne hyp, hold]

/-- The backward links after it. -/
theorem Threaded.unlink_prev {a b c d : List α} {x y : α} (h : Threaded nil s (a ++ x :: b))
    (hy : a ++ b = c ++ y :: d) : (s.unlink nil x).prev y = c.getLastD nil := by
  have hx := h.around
  rcases split_cases hy with ⟨e, rfl, rfl⟩ | ⟨e, rfl, rfl⟩
  · have hold := h.prev_eq c y (e ++ x :: b) (by simp)
    have hyb : y ∉ b := hx.disjoint y (by simp)
    have hyn : s.next x ≠ y := by
      rintro rfl
      by_cases hb : b = []
      · exact hx.fresh_before (by simp [hx.next_eq_nil.mpr hb])
      · exact hyb (hx.next_eq ▸ headD_mem hb nil)
    rw [Links.unlink_prev_of_ne hyn, hold]
  · have hold := h.prev_eq (a ++ x :: e) y d (by simp)
    cases e with
    | nil =>
      have hyn : s.next x = y := by rw [hx.next_eq]; simp
      have hynil : y ≠ nil := fun he => hx.fresh_after (by simp [he])
      simp [Links.unlink, hyn, hynil, hx.prev_eq]
    | cons z e =>
      have hyz : z ≠ y := by
        rintro rfl
        have hnodup := hx.nodup_after
        simp at hnodup
      have hyn : s.next x ≠ y := by
        rw [hx.next_eq]
        simpa using hyz
      rw [Links.unlink_prev_of_ne hyn, hold, getLastD_append_cons, getLastD_append_cons,
        List.getLastD_cons]

theorem Threaded.unlink {a b : List α} {x : α} (h : Threaded nil s (a ++ x :: b)) :
    Threaded nil (s.unlink nil x) (a ++ b) := by
  have hx := h.around
  constructor
  · rw [List.nodup_append]
    exact ⟨hx.nodup_before, hx.nodup_after, fun y hy z hz he => hx.disjoint y hy (he ▸ hz)⟩
  · simp [hx.fresh_before, hx.fresh_after]
  · by_cases ha : a = []
    · simp [Links.unlink, hx.prev_eq_nil.mpr ha, hx.next_eq, ha]
    · have hpx := mt hx.prev_eq_nil.mp ha
      obtain ⟨y, a, rfl⟩ := List.exists_cons_of_ne_nil ha
      simp [Links.unlink, hpx, h.head_eq]
  · by_cases hb : b = []
    · simp [Links.unlink, hx.next_eq_nil.mpr hb, hx.prev_eq, hb]
    · have hnx := mt hx.next_eq_nil.mp hb
      obtain ⟨y, b, rfl⟩ := List.exists_cons_of_ne_nil hb
      simp only [Links.unlink, if_neg hnx, h.last_eq, getLastD_append_cons, List.getLastD_cons]
  · exact fun c y d hy => h.unlink_next hy
  · exact fun c y d hy => h.unlink_prev hy

/-! ## Linking a node in -/

theorem Threaded.pushFront {x : α} (h : Threaded nil s l) (hx : x ∉ l) (hn : x ≠ nil) :
    Threaded nil (s.pushFront nil x) (x :: l) := by
  have hhead := h.head_eq_nil_iff
  constructor
  · exact List.nodup_cons.mpr ⟨hx, h.nodup⟩
  · simp [h.fresh, hn.symm]
  · rfl
  · cases l with
    | nil => simp [Links.pushFront, hhead.mpr rfl]
    | cons y l => simp [Links.pushFront, mt hhead.mp, h.last_eq]
  · intro a y b hab
    cases a with
    | nil =>
      simp only [List.nil_append, List.cons.injEq] at hab
      obtain ⟨rfl, rfl⟩ := hab
      simp [Links.pushFront, h.head_eq]
    | cons z a =>
      simp only [List.cons_append, List.cons.injEq] at hab
      obtain ⟨rfl, rfl⟩ := hab
      have hyx : y ≠ x := fun he => hx (by simp [he])
      simp only [Links.pushFront, Function.update_of_ne hyx]
      exact h.next_eq a y b rfl
  · intro a y b hab
    cases a with
    | nil =>
      simp only [List.nil_append, List.cons.injEq] at hab
      obtain ⟨rfl, rfl⟩ := hab
      by_cases hh : s.head = nil
      · simp [Links.pushFront, hh]
      · have : x ≠ s.head := by
          intro he
          rw [h.head_eq] at he
          exact hx (he ▸ headD_mem (mt hhead.mpr hh) nil)
        simp [Links.pushFront, hh, Function.update_of_ne this]
    | cons z a =>
      simp only [List.cons_append, List.cons.injEq] at hab
      obtain ⟨rfl, rfl⟩ := hab
      have hyx : y ≠ x := fun he => hx (by simp [he])
      have hh : s.head ≠ nil := mt hhead.mp (by simp)
      cases a with
      | nil =>
        have hy : s.head = y := by simp [h.head_eq]
        simp only [Links.pushFront, if_neg hh]
        simp [hy]
      | cons w a =>
        have hw : s.head = w := by simp [h.head_eq]
        have hyw : y ≠ w := by
          rintro rfl
          have := h.nodup
          simp at this
        simp only [Links.pushFront, if_neg hh]
        rw [hw, Function.update_of_ne hyw, Function.update_of_ne hyx,
          h.prev_eq (w :: a) y b rfl, List.getLastD_cons, List.getLastD_cons,
          List.getLastD_cons]

end Infra.Chain
