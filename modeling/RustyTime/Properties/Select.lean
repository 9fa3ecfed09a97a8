import Mathlib.Algebra.Order.Field.Basic
import Mathlib.Tactic.Linarith
import Mathlib.Tactic.NormNum
import RustyTime.Core.Select

/-!
# Source selection: identifiers and agreement

* `select_relabel` — a selection names the sources it is given, and depends on no name
* `select_agreeing` — sources of one offset and one distance all survive, best stratum first
-/

namespace RustyTime

set_option linter.unusedSectionVars false

variable {R : Type} [Field R] [LinearOrder R]

/-- The same estimate under another identifier. -/
def SourceEstimate.relabel (f : Nat → Nat) (s : SourceEstimate R) : SourceEstimate R :=
  { s with id := f s.id }

namespace Select

/-! ## Identifiers -/

theorem edges_relabel (f : Nat → Nat) (sources : List (SourceEstimate R)) :
    edges (sources.map (SourceEstimate.relabel f)) = edges sources := by
  rw [edges, List.flatMap_map]
  rfl

theorem survivors_relabel (f : Nat → Nat) (lo hi : R) (sources : List (SourceEstimate R)) :
    ((sources.map (SourceEstimate.relabel f)).filter (survives lo hi)).insertionSort Before =
      ((sources.filter (survives lo hi)).insertionSort Before).map (SourceEstimate.relabel f) := by
  rw [List.filter_map, List.map_insertionSort Before Before]
  · rfl
  · intro a _ b _
    exact Iff.rfl

/-- **A selection depends on no identifier.** -/
theorem select_relabel (f : Nat → Nat) (sources : List (SourceEstimate R)) :
    (select (sources.map (SourceEstimate.relabel f))).truechimers =
      (select sources).truechimers.map f := by
  unfold select
  rw [List.length_map, edges_relabel]
  split
  · rfl
  · cases chosen (edges sources) sources.length with
    | none => rfl
    | some ends =>
      dsimp only
      rw [survivors_relabel, List.isEmpty_map]
      split
      · rfl
      · dsimp only
        rw [List.map_map, List.map_map]
        rfl

/-- A selection names only sources it was given. -/
theorem mem_truechimers {sources : List (SourceEstimate R)} {i : Nat}
    (h : i ∈ (select sources).truechimers) : ∃ s ∈ sources, s.id = i := by
  unfold select at h
  split at h
  · exact absurd h List.not_mem_nil
  · split at h
    · exact absurd h List.not_mem_nil
    · dsimp only at h
      split at h
      · exact absurd h List.not_mem_nil
      · obtain ⟨s, hs, hid⟩ := List.mem_map.mp h
        rw [List.mem_insertionSort] at hs
        exact ⟨s, List.mem_of_mem_filter hs, hid⟩

/-! ## Agreement -/

section Agreement

variable {x y : R} {n : Nat}

/-- Lower edges all the same, then upper ones: where one more pair of them goes. -/
theorem insert_pair (hxy : x < y) :
    (List.orderedInsert (fun a b : Edge R => a.value ≤ b.value) ⟨x, 1⟩
      (List.orderedInsert (fun a b : Edge R => a.value ≤ b.value) ⟨y, -1⟩
        (List.replicate n ⟨x, 1⟩ ++ List.replicate n ⟨y, -1⟩))) =
      List.replicate (n + 1) ⟨x, 1⟩ ++ List.replicate (n + 1) ⟨y, -1⟩ := by
  have hupper : ∀ m, List.orderedInsert (fun a b : Edge R => a.value ≤ b.value) ⟨y, -1⟩
      (List.replicate m ⟨x, 1⟩ ++ List.replicate n ⟨y, -1⟩) =
        List.replicate m ⟨x, 1⟩ ++ List.replicate (n + 1) ⟨y, -1⟩ := by
    intro m
    induction m with
    | zero =>
      cases n with
      | zero => rfl
      | succ n => exact List.orderedInsert_cons_of_le _ _ (le_refl y)
    | succ m ih =>
      rw [List.replicate_succ, List.cons_append, List.orderedInsert_cons, if_neg (not_le.mpr hxy),
        ih, List.cons_append]
  rw [hupper, List.replicate_succ]
  cases n with
  | zero => exact List.orderedInsert_cons_of_le _ _ hxy.le
  | succ n => exact List.orderedInsert_cons_of_le _ _ (le_refl x)

/-- The endpoints of sources of one offset and one distance. -/
theorem edges_agreeing {sources : List (SourceEstimate R)} {o d : R}
    (hsame : ∀ s ∈ sources, s.offset = o ∧ radius s = d) (hlt : o - d < o + d) :
    edges sources = List.replicate sources.length ⟨o - d, 1⟩ ++
      List.replicate sources.length ⟨o + d, -1⟩ := by
  induction sources with
  | nil => rfl
  | cons s sources ih =>
    obtain ⟨ho, hd⟩ := hsame s List.mem_cons_self
    have hrest := ih fun s' hs' => hsame s' (List.mem_cons_of_mem s hs')
    unfold edges at hrest ⊢
    rw [List.flatMap_cons, List.cons_append, List.cons_append, List.nil_append,
      List.insertionSort_cons, List.insertionSort_cons, hrest, ho, hd]
    exact insert_pair hlt

/-- A scan over enough edges of the kind it counts. -/
theorem scan_replicate {sign need count : Int} {e : Edge R} {rest : List (Edge R)} {m : Nat}
    (hkind : sign * e.kind = 1) (hlow : count < need) (henough : need ≤ count + m) :
    scan sign need count (List.replicate m e ++ rest) = some e.value := by
  induction m generalizing count with
  | zero => omega
  | succ m ih =>
    rw [List.replicate_succ, List.cons_append, scan, hkind]
    split
    · rfl
    · next hmore =>
      refine ih (not_le.mp hmore) ?_
      push_cast at henough
      omega

theorem chosen_agreeing {sources : List (SourceEstimate R)} {o d : R}
    (hsame : ∀ s ∈ sources, s.offset = o ∧ radius s = d) (hlt : o - d < o + d)
    (hne : sources ≠ []) :
    chosen (edges sources) sources.length = some (o - d, o + d) := by
  have hpos : 0 < sources.length := List.length_pos_iff.mpr hne
  have hinter : intersection (edges sources) sources.length 0 = some (o - d, o + d) := by
    unfold intersection
    dsimp only
    rw [edges_agreeing hsame hlt, List.reverse_append, List.reverse_replicate,
      List.reverse_replicate, scan_replicate, scan_replicate]
    · dsimp only
      exact if_pos hlt.le
    all_goals first | rfl | omega
  unfold chosen
  rw [List.range_succ_eq_map, List.findSome?_cons, hinter]

theorem before_total (a b : SourceEstimate R) : Before a b ∨ Before b a := by
  rcases Nat.lt_trichotomy a.stratum b.stratum with h | h | h
  · exact .inl (.inl h)
  · rcases le_total a.rootDistance b.rootDistance with hd | hd
    · exact .inl (.inr ⟨h, hd⟩)
    · exact .inr (.inr ⟨h.symm, hd⟩)
  · exact .inr (.inl h)

theorem before_trans {a b c : SourceEstimate R} (hab : Before a b) (hbc : Before b c) :
    Before a c := by
  rcases hab with hab | ⟨hab, hdab⟩
  · rcases hbc with hbc | ⟨hbc, -⟩
    · exact .inl (hab.trans hbc)
    · exact .inl (hbc ▸ hab)
  · rcases hbc with hbc | ⟨hbc, hdbc⟩
    · exact .inl (hab ▸ hbc)
    · exact .inr ⟨hab.trans hbc, hdab.trans hdbc⟩

/-- **Sources that agree are all selected**, and the first is of the best stratum. -/
theorem select_agreeing [IsStrictOrderedRing R] {sources : List (SourceEstimate R)} {o d : R}
    (hsame : ∀ s ∈ sources, s.offset = o ∧ radius s = d) (hd : 0 < d) (hne : sources ≠ []) :
    ∃ s ∈ sources, (select sources).truechimers.head? = some s.id ∧
      ∀ s' ∈ sources, s.stratum ≤ s'.stratum := by
  have hlt : o - d < o + d := by linarith
  have hall : sources.filter (survives (o - d) (o + d)) = sources := by
    refine List.filter_eq_self.mpr ?_
    intro s hs
    obtain ⟨ho, hr⟩ := hsame s hs
    rw [survives, ho, hr, decide_eq_true hlt.le, Bool.and_self]
  have : Std.Total (Before (R := R)) := ⟨before_total⟩
  have : IsTrans (SourceEstimate R) Before := ⟨fun _ _ _ => before_trans⟩
  cases hsorted : sources.insertionSort Before with
  | nil =>
    have hlen := List.length_insertionSort (r := Before) (l := sources)
    rw [hsorted] at hlen
    exact absurd (List.length_eq_zero_iff.mp hlen.symm) hne
  | cons s rest =>
    have hmem : ∀ s', s' ∈ s :: rest ↔ s' ∈ sources := by
      intro s'
      rw [← hsorted]
      exact List.mem_insertionSort Before
    refine ⟨s, (hmem s).mp List.mem_cons_self, ?_, ?_⟩
    · unfold select
      rw [if_neg fun h => hne (List.length_eq_zero_iff.mp h), chosen_agreeing hsame hlt hne]
      dsimp only
      rw [hall, hsorted]
      rfl
    · intro s' hs'
      rcases List.mem_cons.mp ((hmem s').mpr hs') with rfl | hrest
      · exact le_refl _
      · have hpair := List.pairwise_insertionSort Before sources
        rw [hsorted] at hpair
        rcases (List.pairwise_cons.mp hpair).1 s' hrest with h | ⟨h, -⟩
        · exact h.le
        · exact h.le

end Agreement

end Select

end RustyTime
