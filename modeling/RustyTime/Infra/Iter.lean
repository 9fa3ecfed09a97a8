import Mathlib.Data.List.Basic

/-!
# Iterators

An iterator is a step function: from a state it gives an item and the next state, or it ends.

* `Yields.eq_nil` — an iterator at its end gives nothing
* `exists_yields` — an iterator that uses up its state ends
* `yields_collect` — and its items can be listed
-/

namespace Infra.Iter

variable {σ α : Type*} {next : σ → Option (α × σ)}

/-- From `s` on the iterator gives the items `xs`, and then it ends. -/
inductive Yields (next : σ → Option (α × σ)) : σ → List α → Prop
  | done {s : σ} : next s = none → Yields next s []
  | item {s s' : σ} {x : α} {xs : List α} :
      next s = some (x, s') → Yields next s' xs → Yields next s (x :: xs)

theorem Yields.eq_nil {s : σ} {xs : List α} (h : Yields next s xs) (hend : next s = none) :
    xs = [] := by
  cases h with
  | done _ => rfl
  | item hnext _ => simp [hend] at hnext

/-- The measure rule: each item takes something away, so there is an end. -/
theorem exists_yields (size : σ → Nat)
    (hsize : ∀ s x s', next s = some (x, s') → size s' < size s) (s : σ) :
    ∃ xs, Yields next s xs := by
  induction hn : size s using Nat.strongRecOn generalizing s with
  | ind n ih =>
    cases hnext : next s with
    | none => exact ⟨[], .done hnext⟩
    | some item =>
      obtain ⟨x, s'⟩ := item
      obtain ⟨xs, hxs⟩ := ih (size s') (hn ▸ hsize s x s' hnext) s' rfl
      exact ⟨x :: xs, .item hnext hxs⟩

/-- The items from `s` on, as many as `fuel`. -/
def collect (next : σ → Option (α × σ)) : (fuel : Nat) → σ → List α
  | 0, _ => []
  | fuel + 1, s =>
    match next s with
    | none => []
    | some (x, s') => x :: collect next fuel s'

/-- With fuel for what the state can give, `collect` lists the items and the iterator is at
its end. -/
theorem yields_collect (size : σ → Nat)
    (hsize : ∀ s x s', next s = some (x, s') → size s' < size s) {fuel : Nat} {s : σ}
    (hfuel : size s < fuel) : Yields next s (collect next fuel s) := by
  induction fuel generalizing s with
  | zero => exact absurd hfuel (Nat.not_lt_zero _)
  | succ fuel ih =>
    unfold collect
    cases hnext : next s with
    | none => exact .done hnext
    | some item =>
      obtain ⟨x, s'⟩ := item
      have hlt := hsize s x s' hnext
      exact .item hnext (ih (by omega))

/-- An iterator gives one list of items. -/
theorem Yields.unique {s : σ} {xs ys : List α} (hx : Yields next s xs) (hy : Yields next s ys) :
    xs = ys := by
  induction hx generalizing ys with
  | done hend => exact (hy.eq_nil hend).symm
  | item hnext _ ih =>
    cases hy with
    | done hend =>
      rw [hnext] at hend
      cases hend
    | item hnext' hrest =>
      rw [hnext] at hnext'
      cases hnext'
      rw [ih hrest]

end Infra.Iter
