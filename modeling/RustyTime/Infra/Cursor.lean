import Mathlib.Data.List.Basic

/-!
# Reading a string from the front

A reader takes what it needs off the front of a string and passes on the rest, or fails.

* `take_append` — what was put in front is what is taken
* `take_eq_ok` — and what is taken was in front
* `bind_eq_ok` — a chain of readers succeeds by its links
* `flatMap_prefix_iff` — a stream of records, each read back whatever follows it, is cut into
  whole records only between two of them
-/

namespace Infra.Cursor

universe u v

variable {α β : Type u} {ε : Type v}

/-- `n` elements off the front, or the failure `e`. -/
def take (e : ε) (rest : List α) (n : Nat) : Except ε (List α × List α) :=
  if n ≤ rest.length then .ok (rest.take n, rest.drop n) else .error e

theorem take_append (e : ε) (front rest : List α) :
    take e (front ++ rest) front.length = .ok (front, rest) := by
  unfold take
  rw [if_pos (by rw [List.length_append]; exact Nat.le_add_right _ _), List.take_left,
    List.drop_left]

theorem length_of_take {e : ε} {rest : List α} {n : Nat} {out : List α × List α}
    (h : take e rest n = .ok out) : out.2.length + n = rest.length := by
  unfold take at h
  split at h
  · cases h
    rw [List.length_drop]
    omega
  · cases h

theorem take_eq_ok {e : ε} {rest front rest' : List α} {n : Nat}
    (h : take e rest n = .ok (front, rest')) : rest = front ++ rest' ∧ front.length = n := by
  unfold take at h
  split at h
  · next hn =>
    cases h
    exact ⟨(List.take_append_drop n rest).symm, List.length_take_of_le hn⟩
  · cases h

@[simp] theorem ok_bind (a : α) (f : α → Except ε β) : (Except.ok a >>= f) = f a := rfl

theorem bind_eq_ok {x : Except ε α} {f : α → Except ε β} {b : β} :
    x >>= f = .ok b ↔ ∃ a, x = .ok a ∧ f a = .ok b := by
  cases x with
  | ok a =>
    constructor
    · intro h
      exact ⟨a, rfl, h⟩
    · rintro ⟨a', ha, h⟩
      cases ha
      exact h
  | error e =>
    constructor
    · intro h
      cases h
    · rintro ⟨a, ha, -⟩
      cases ha

/-! ## Streams of records -/

section Stream

variable {ι γ : Type*} {enc : ι → List α} {entry : ι → γ} {P : ι → Prop}
  {read : List α → Except ε (γ × List α)}

/-- One stream of records is the front of another only when its records are. -/
theorem flatMap_prefix_iff (hread : ∀ x rest, P x → read (enc x ++ rest) = .ok (entry x, rest))
    (hinj : ∀ x y, P x → P y → entry x = entry y → x = y) (hne : ∀ x, enc x ≠ []) {xs ys : List ι}
    (hxs : ∀ x ∈ xs, P x) (hys : ∀ y ∈ ys, P y) :
    xs.flatMap enc <+: ys.flatMap enc ↔ xs <+: ys := by
  constructor
  · intro h
    induction xs generalizing ys with
    | nil => exact List.nil_prefix
    | cons x xs ih =>
      have hx := hxs x List.mem_cons_self
      obtain ⟨tail, htail⟩ := h
      rw [List.flatMap_cons, List.append_assoc] at htail
      cases ys with
      | nil =>
        have hnil := (List.append_eq_nil_iff.mp htail).1
        exact absurd hnil (hne x)
      | cons y ys =>
        have hy := hys y List.mem_cons_self
        rw [List.flatMap_cons] at htail
        -- both streams start with the record the reader finds there
        have hsame := hread y (ys.flatMap enc) hy
        rw [← htail, hread x _ hx] at hsame
        obtain ⟨hentry, hrest⟩ := Prod.mk.inj (Except.ok.inj hsame)
        obtain rfl := hinj x y hx hy hentry
        exact List.cons_prefix_cons.mpr ⟨rfl, ih (fun z hz => hxs z (List.mem_cons_of_mem _ hz))
          (fun z hz => hys z (List.mem_cons_of_mem _ hz)) ⟨tail, hrest⟩⟩
  · rintro ⟨rest, rfl⟩
    exact ⟨rest.flatMap enc, (List.flatMap_append).symm⟩

end Stream

end Infra.Cursor
