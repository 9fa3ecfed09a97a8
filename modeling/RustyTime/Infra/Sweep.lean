import Mathlib.Algebra.BigOperators.Group.List.Basic
import Mathlib.Algebra.Ring.Int.Defs
import Mathlib.Data.List.Sort
import Mathlib.Order.Interval.Set.Defs

/-!
# Sweeping the ends of intervals

Every member of a list has an interval. The ends of the intervals are sorted by value, by a
stable sort, and read in order; the running count goes up at a lower end and down at an upper
one. Ends of one value are read in the order of the list, so what the count shows at a point
depends on how far the list has been read there: `overlap`.

* `filter_insertionSort` — a stable sort by a key leaves what has one key in its order
* `count_of_append` — a prefix of the sorted ends counts an overlap
* `append_of_overlap` — and every overlap is counted by one
* `exists_common_point` — intervals that meet in pairs share a point
-/

namespace Infra.Sweep

set_option linter.unusedSectionVars false

variable {α ε σ : Type*} [LinearOrder α]

/-! ## Stable sorting by a key -/

section Sorting

variable (key : ε → α) (l : List ε)

/-- A stable sort leaves what has one key in its order. -/
theorem filter_insertionSort (x : α) :
    (l.insertionSort fun a b => key a ≤ key b).filter (fun e => key e = x) =
      l.filter fun e => key e = x := by
  have hsame : (l.filter fun e => decide (key e = x)).Pairwise fun a b => key a ≤ key b := by
    refine List.pairwise_of_forall_mem_list ?_
    intro a ha b hb
    simp only [List.mem_filter, decide_eq_true_eq] at ha hb
    rw [ha.2, hb.2]
  have : Std.Total fun a b : ε => key a ≤ key b := ⟨fun a b => le_total (key a) (key b)⟩
  have : IsTrans ε fun a b => key a ≤ key b := ⟨fun _ _ _ => le_trans⟩
  have hsub := (List.sublist_insertionSort hsame List.filter_sublist).filter
    fun e => decide (key e = x)
  rw [List.filter_filter] at hsub
  simp only [Bool.and_self] at hsub
  exact (hsub.eq_of_length ((List.perm_insertionSort _ l).filter _).length_eq.symm).symm

theorem pairwise_insertionSort :
    (l.insertionSort fun a b => key a ≤ key b).Pairwise fun a b => key a ≤ key b := by
  have : Std.Total fun a b : ε => key a ≤ key b := ⟨fun a b => le_total (key a) (key b)⟩
  have : IsTrans ε fun a b => key a ≤ key b := ⟨fun _ _ _ => le_trans⟩
  exact List.pairwise_insertionSort _ l

variable {key l}

/-- What is sorted falls into the keys below `x`, at `x` and above `x`. -/
theorem eq_filter_append (h : l.Pairwise fun a b => key a ≤ key b) (x : α) :
    l = l.filter (fun e => key e < x) ++
      (l.filter (fun e => key e = x) ++ l.filter fun e => x < key e) := by
  induction l with
  | nil => rfl
  | cons e l ih =>
    obtain ⟨hhead, htail⟩ := List.pairwise_cons.mp h
    rcases lt_trichotomy (key e) x with he | he | he
    · simpa [he, he.ne, he.not_gt] using ih htail
    · have hnone : l.filter (fun e => decide (key e < x)) = [] := by
        simpa [← he] using hhead
      simpa [he, hnone] using ih htail
    · have hbelow : l.filter (fun e => decide (key e < x)) = [] := by
        simpa using fun a ha => (he.trans_le (hhead a ha)).le
      have hat : l.filter (fun e => decide (key e = x)) = [] := by
        simpa using fun a ha => (he.trans_le (hhead a ha)).ne'
      simpa [he, he.ne', he.not_gt, hbelow, hat] using ih htail

end Sorting

/-! ## Overlap -/

section Overlap

variable (lo hi : σ → α)

/-- How many of the closed intervals contain `x`. -/
def depth (l : List σ) (x : α) : Nat := l.countP fun s => decide (lo s ≤ x ∧ x ≤ hi s)

/-- The overlap at `x` once the ends there of `read` have been read, and not those of `rest`. -/
def overlap (read rest : List σ) (x : α) : Nat :=
  read.countP (fun s => decide (lo s ≤ x ∧ x < hi s)) +
    rest.countP fun s => decide (lo s < x ∧ x ≤ hi s)

/-- The overlap at `x` or beside it, whatever the order of the list. -/
def firm (l : List σ) (x : α) : Nat := max (overlap lo hi l [] x) (overlap lo hi [] l x)

variable {lo hi} {l read rest : List σ} {x : α}

theorem overlap_le_depth : overlap lo hi read rest x ≤ depth lo hi (read ++ rest) x := by
  unfold overlap depth
  rw [List.countP_append]
  refine Nat.add_le_add (List.countP_mono_left ?_) (List.countP_mono_left ?_)
  · intro s _ hs
    simp only [decide_eq_true_eq] at hs ⊢
    exact ⟨hs.1, hs.2.le⟩
  · intro s _ hs
    simp only [decide_eq_true_eq] at hs ⊢
    exact ⟨hs.1.le, hs.2⟩

theorem depth_le_length : depth lo hi l x ≤ l.length := List.countP_le_length

theorem depth_perm {l' : List σ} (h : l'.Perm l) : depth lo hi l' x = depth lo hi l x :=
  h.countP_eq _

theorem firm_perm {l' : List σ} (h : l'.Perm l) : firm lo hi l' x = firm lo hi l x := by
  simp only [firm, overlap, List.countP_nil, h.countP_eq]

/-- What contains `x` inside overlaps there firmly. -/
theorem countP_interior_le_overlap :
    (l.countP fun s => decide (lo s < x ∧ x < hi s)) ≤ overlap lo hi [] l x := by
  rw [overlap, List.countP_nil, Nat.zero_add]
  refine List.countP_mono_left ?_
  intro s _ hs
  simp only [decide_eq_true_eq] at hs ⊢
  exact ⟨hs.1, hs.2.le⟩

/-- Where no interval that begins at `x` is read before one that ends there, the count at `x`
shows no more than is beside it. -/
theorem overlap_le_firm (h : (read ++ rest).Pairwise fun s t => ¬(lo s = x ∧ hi t = x)) :
    overlap lo hi read rest x ≤ firm lo hi (read ++ rest) x := by
  by_cases hread : ∃ s ∈ read, lo s = x
  · -- then nothing of the rest ends at `x`
    obtain ⟨s, hs, hlo⟩ := hread
    have hrest : ∀ t ∈ rest, hi t ≠ x := fun t ht hhi =>
      (List.pairwise_append.mp h).2.2 s hs t ht ⟨hlo, hhi⟩
    refine le_trans ?_ (le_max_left _ _)
    simp only [overlap, List.countP_append, List.countP_nil, Nat.add_zero]
    refine Nat.add_le_add_left (List.countP_mono_left ?_) _
    intro t ht hin
    simp only [decide_eq_true_eq] at hin ⊢
    exact ⟨hin.1.le, lt_of_le_of_ne hin.2 (hrest t ht).symm⟩
  · refine le_trans ?_ (le_max_right _ _)
    simp only [overlap, List.countP_append, List.countP_nil, Nat.zero_add]
    refine Nat.add_le_add_right (List.countP_mono_left ?_) _
    intro s hs hin
    simp only [decide_eq_true_eq] at hin ⊢
    exact ⟨lt_of_le_of_ne hin.1 fun he => hread ⟨s, hs, he⟩, hin.2.le⟩

/-- Where what begins at `x` is read, and what ends there is not, the count shows all. -/
theorem overlap_eq_depth (hread : ∀ s ∈ read, hi s ≠ x) (hrest : ∀ s ∈ rest, lo s ≠ x) :
    overlap lo hi read rest x = depth lo hi (read ++ rest) x := by
  unfold overlap depth
  rw [List.countP_append]
  congr 1
  · refine List.countP_congr ?_
    intro s hs
    simp only [decide_eq_true_eq]
    exact and_congr_right fun _ => ⟨le_of_lt, fun h => lt_of_le_of_ne h (hread s hs).symm⟩
  · refine List.countP_congr ?_
    intro s hs
    simp only [decide_eq_true_eq]
    exact and_congr_left fun _ => ⟨le_of_lt, fun h => lt_of_le_of_ne h (hrest s hs)⟩

/-- Intervals that meet in pairs share a point. -/
theorem exists_common_point (hne : l ≠ []) (h : ∀ s ∈ l, ∀ t ∈ l, lo s ≤ hi t) :
    ∃ p, ∀ s ∈ l, p ∈ Set.Icc (lo s) (hi s) := by
  have hmax : ∃ t ∈ l, ∀ s ∈ l, lo s ≤ lo t := by
    clear h
    induction l with
    | nil => exact absurd rfl hne
    | cons s l ih =>
      by_cases hl : l = []
      · exact ⟨s, List.mem_cons_self, by simp [hl]⟩
      · obtain ⟨t, ht, hmax⟩ := ih hl
        rcases le_total (lo s) (lo t) with hle | hle
        · exact ⟨t, List.mem_cons_of_mem s ht, List.forall_mem_cons.mpr ⟨hle, hmax⟩⟩
        · refine ⟨s, List.mem_cons_self, List.forall_mem_cons.mpr ⟨le_refl _, ?_⟩⟩
          intro u hu
          exact (hmax u hu).trans hle
  obtain ⟨t, ht, hmax⟩ := hmax
  exact ⟨lo t, fun s hs => ⟨hmax s hs, h t ht s hs⟩⟩

end Overlap

/-! ## The sweep -/

/-- How the ends of the intervals of `σ` are marked. -/
structure Marking (σ ε α : Type*) [LinearOrder α] where
  value : ε → α
  kind : ε → Int
  entry : σ → ε
  exit : σ → ε
  kind_entry : ∀ s, kind (entry s) = 1
  kind_exit : ∀ s, kind (exit s) = -1
  entry_lt_exit : ∀ s, value (entry s) < value (exit s)

namespace Marking

variable (m : Marking σ ε α)

def lo (s : σ) : α := m.value (m.entry s)

def hi (s : σ) : α := m.value (m.exit s)

/-- The marks of a list, source by source. -/
def marks (l : List σ) : List ε := l.flatMap fun s => [m.entry s, m.exit s]

/-- The marks in ascending order. -/
def sweep (l : List σ) : List ε := (m.marks l).insertionSort fun a b => m.value a ≤ m.value b

/-- The running count after some marks. -/
def count (ms : List ε) : Int := (ms.map m.kind).sum

variable {m} {l read rest : List σ} {pre post : List ε} {x : α}

@[simp] theorem count_nil : m.count [] = 0 := rfl

@[simp] theorem count_append : m.count (pre ++ post) = m.count pre + m.count post := by
  simp [count]

@[simp] theorem count_cons {e : ε} : m.count (e :: pre) = m.kind e + m.count pre := by
  simp [count]

@[simp] theorem count_reverse : m.count pre.reverse = m.count pre := by
  simp [count, List.map_reverse, List.sum_reverse]

@[simp] theorem marks_cons {s : σ} : m.marks (s :: l) = m.entry s :: m.exit s :: m.marks l := rfl

@[simp] theorem marks_append : m.marks (read ++ rest) = m.marks read ++ m.marks rest :=
  List.flatMap_append

theorem count_perm (h : pre.Perm post) : m.count pre = m.count post := (h.map m.kind).sum_eq

/-- As many intervals are left as entered. -/
theorem count_sweep (l : List σ) : m.count (m.sweep l) = 0 := by
  rw [sweep, count_perm (List.perm_insertionSort _ _)]
  induction l with
  | nil => rfl
  | cons s l ih => simp [ih, m.kind_entry, m.kind_exit]

/-- The marks below `x` count the intervals entered before `x` and not left. -/
theorem count_below (l : List σ) (x : α) :
    m.count ((m.marks l).filter fun e => m.value e < x) =
      (overlap m.lo m.hi [] l x : Int) := by
  induction l with
  | nil => rfl
  | cons s l ih =>
    have hlt := m.entry_lt_exit s
    simp only [overlap, List.countP_nil, Nat.zero_add] at ih
    simp only [marks_cons, List.filter_cons, overlap, List.countP_nil, Nat.zero_add,
      List.countP_cons, lo, hi] at ih ⊢
    rcases lt_or_ge (m.value (m.exit s)) x with hexit | hexit
    · simp [hexit, hlt.trans hexit, hexit.not_ge, ih, m.kind_entry, m.kind_exit]
    · rcases lt_or_ge (m.value (m.entry s)) x with hentry | hentry
      · simp [hexit, hexit.not_gt, hentry, ih, m.kind_entry, add_comm]
      · simp [hexit.not_gt, hentry.not_gt, ih]

/-- The marks at `x` turn what is entered before `x` and not left into what is entered and not
left by `x`. -/
theorem count_at (l : List σ) (x : α) :
    (overlap m.lo m.hi [] l x : Int) + m.count ((m.marks l).filter fun e => m.value e = x) =
      overlap m.lo m.hi l [] x := by
  induction l with
  | nil => rfl
  | cons s l ih =>
    have hlt := m.entry_lt_exit s
    simp only [overlap, List.countP_nil, Nat.zero_add, Nat.add_zero, List.countP_cons, lo, hi,
      marks_cons, List.filter_cons, Int.natCast_add] at ih ⊢
    rcases lt_trichotomy (m.value (m.entry s)) x with hentry | hentry | hentry
    · rcases lt_trichotomy (m.value (m.exit s)) x with hexit | hexit | hexit
      · simp [hentry, hentry.ne, hentry.le, hexit.ne, hexit.not_ge, hexit.not_gt, ih]
      · simp [hentry, hentry.ne, hexit, m.kind_exit, ← ih]
      · simp [hentry, hentry.ne, hentry.le, hexit, hexit.le, hexit.ne', ← ih]
        omega
    · have hexit : x < m.value (m.exit s) := hentry ▸ hlt
      simp [hentry, hexit, hexit.ne', m.kind_entry, ← ih]
      omega
    · have hexit := hentry.trans hlt
      simp [hentry.ne', hentry.not_gt, hentry.not_ge, hexit.ne', ih]

/-- The marks below `x`, then those at `x` of what has been read, count the overlap. -/
theorem count_overlap (read rest : List σ) (x : α) :
    m.count ((m.marks (read ++ rest)).filter fun e => m.value e < x) +
        m.count ((m.marks read).filter fun e => m.value e = x) =
      (overlap m.lo m.hi read rest x : Int) := by
  have hat := m.count_at read x
  simp only [marks_append, List.filter_append, count_append, count_below]
  simp only [overlap, List.countP_nil, Nat.zero_add, Nat.add_zero] at hat ⊢
  omega

/-- The marks at `x` are read source by source: no source has both its ends there. -/
theorem exists_read_of_append (h : (m.marks l).filter (fun e => m.value e = x) = pre ++ post) :
    ∃ read rest, l = read ++ rest ∧ (m.marks read).filter (fun e => m.value e = x) = pre := by
  induction l generalizing pre with
  | nil =>
    refine ⟨[], [], rfl, ?_⟩
    exact (List.append_eq_nil_iff.mp h.symm).1.symm
  | cons s l ih =>
    by_cases hpre : pre = []
    · exact ⟨[], s :: l, rfl, hpre.symm⟩
    · have hlt := m.entry_lt_exit s
      -- at most one of the two ends of `s` is at `x`
      have hone : (m.marks (s :: l)).filter (fun e => decide (m.value e = x)) =
            (m.marks l).filter (fun e => decide (m.value e = x)) ∧
          ([m.entry s, m.exit s].filter fun e => decide (m.value e = x)) = [] ∨
          ∃ e, (m.marks (s :: l)).filter (fun e => decide (m.value e = x)) =
              e :: (m.marks l).filter (fun e => decide (m.value e = x)) ∧
            ([m.entry s, m.exit s].filter fun e => decide (m.value e = x)) = [e] := by
        by_cases hentry : m.value (m.entry s) = x
        · have hexit : m.value (m.exit s) ≠ x := fun he => hlt.ne (hentry.trans he.symm)
          exact .inr ⟨m.entry s, by simp [hentry, hexit]⟩
        · by_cases hexit : m.value (m.exit s) = x
          · exact .inr ⟨m.exit s, by simp [hentry, hexit]⟩
          · exact .inl (by simp [hentry, hexit])
      have hcons : ∀ read, (m.marks (s :: read)).filter (fun e => decide (m.value e = x)) =
          ([m.entry s, m.exit s].filter fun e => decide (m.value e = x)) ++
            (m.marks read).filter fun e => decide (m.value e = x) := fun read =>
        List.filter_append [m.entry s, m.exit s] (m.marks read)
      rcases hone with ⟨hrest, hends⟩ | ⟨e, hrest, hends⟩
      · obtain ⟨read, rest, rfl, hread⟩ := ih (hrest.symm.trans h)
        exact ⟨s :: read, rest, rfl, by rw [hcons, hends, hread, List.nil_append]⟩
      · obtain ⟨p, pre, rfl⟩ := List.exists_cons_of_ne_nil hpre
        rw [hrest, List.cons_append, List.cons.injEq] at h
        obtain ⟨read, rest, rfl, hread⟩ := ih h.2
        exact ⟨s :: read, rest, rfl, by rw [hcons, hends, hread, h.1]; rfl⟩

theorem pairwise_sweep (l : List σ) :
    (m.sweep l).Pairwise fun a b => m.value a ≤ m.value b :=
  pairwise_insertionSort m.value (m.marks l)

theorem filter_sweep (l : List σ) (x : α) :
    (m.sweep l).filter (fun e => m.value e = x) = (m.marks l).filter fun e => m.value e = x :=
  filter_insertionSort m.value (m.marks l) x

theorem count_sweep_below (l : List σ) (x : α) :
    m.count ((m.sweep l).filter fun e => m.value e < x) =
      m.count ((m.marks l).filter fun e => m.value e < x) :=
  count_perm ((List.perm_insertionSort _ _).filter _)

/-- **A prefix of the sweep counts an overlap**, wherever it may be cut. -/
theorem count_of_append (h : m.sweep l = pre ++ post) (hpre : ∀ e ∈ pre, m.value e ≤ x)
    (hpost : ∀ e ∈ post, x ≤ m.value e) :
    ∃ read rest, l = read ++ rest ∧ m.count pre = (overlap m.lo m.hi read rest x : Int) := by
  have hat : (m.marks l).filter (fun e => decide (m.value e = x)) =
      pre.filter (fun e => decide (m.value e = x)) ++
        post.filter fun e => decide (m.value e = x) := by
    rw [← filter_sweep, h, List.filter_append]
  have hbelow : (m.sweep l).filter (fun e => decide (m.value e < x)) =
      pre.filter fun e => decide (m.value e < x) := by
    have hnone : post.filter (fun e => decide (m.value e < x)) = [] := by
      simpa using hpost
    rw [h, List.filter_append, hnone, List.append_nil]
  have hsplit : m.count pre = m.count (pre.filter fun e => decide (m.value e < x)) +
      m.count (pre.filter fun e => decide (m.value e = x)) := by
    have hsorted := m.pairwise_sweep l
    rw [h] at hsorted
    have habove : pre.filter (fun e => decide (x < m.value e)) = [] := by
      simpa using hpre
    have heq := eq_filter_append (List.pairwise_append.mp hsorted).1 x
    rw [habove, List.append_nil] at heq
    rw [← count_append, ← heq]
  obtain ⟨read, rest, rfl, hread⟩ := exists_read_of_append hat
  refine ⟨read, rest, rfl, ?_⟩
  rw [hsplit, ← hbelow, ← hread, count_sweep_below, count_overlap]

/-- **Every overlap is counted by a prefix of the sweep.** -/
theorem append_of_overlap (read rest : List σ) (x : α) :
    ∃ pre post, m.sweep (read ++ rest) = pre ++ post ∧ (∀ e ∈ pre, m.value e ≤ x) ∧
      (∀ e ∈ post, x ≤ m.value e) ∧ m.count pre = (overlap m.lo m.hi read rest x : Int) := by
  have heq := eq_filter_append (m.pairwise_sweep (read ++ rest)) x
  rw [filter_sweep, marks_append, List.filter_append, List.append_assoc, ← List.append_assoc]
    at heq
  refine ⟨_, _, heq, ?_, ?_, ?_⟩
  · intro e he
    rcases List.mem_append.mp he with he | he
    · simp only [List.mem_filter, decide_eq_true_eq] at he
      exact he.2.le
    · simp only [List.mem_filter, decide_eq_true_eq] at he
      exact he.2.le
  · intro e he
    rcases List.mem_append.mp he with he | he
    · simp only [List.mem_filter, decide_eq_true_eq] at he
      exact he.2.ge
    · simp only [List.mem_filter, decide_eq_true_eq] at he
      exact he.2.le
  · rw [count_append, count_sweep_below, count_overlap]

end Marking

end Infra.Sweep
