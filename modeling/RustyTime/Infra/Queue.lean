import Mathlib.Data.List.Basic
import Mathlib.Tactic.Common

/-!
# How old an entry of a short queue gets

A queue is served from the front and filled at the end. Time is counted in services. While the
queue is never longer than `cap`, an entry is served within `cap` services of the time it went in:
`Aged` says so of every entry, by its place.

* `Aged.serve`, `Aged.enter` — what one service and one arrival keep
* `Aged.head` — what is served next is not too old
-/

namespace Infra.Queue

variable {α : Type*} {P Q : ℕ → α → Prop} {cap now : ℕ} {x : α} {q : List α}

/-- Every entry went in at a time `born` of which `P` holds, and its turn is no more than `cap`
services after. -/
def Aged (P : ℕ → α → Prop) (cap now : ℕ) (q : List α) : Prop :=
  ∀ i x, q[i]? = some x → ∃ born, P born x ∧ now + i < born + cap

theorem aged_nil : Aged P cap now [] := by
  intro i x h
  cases h

theorem Aged.mono (h : Aged P cap now q) (hPQ : ∀ born x, P born x → Q born x) :
    Aged Q cap now q := by
  intro i x hx
  obtain ⟨born, hborn, hage⟩ := h i x hx
  exact ⟨born, hPQ born x hborn, hage⟩

/-- What is served next went in less than `cap` services ago. -/
theorem Aged.head (h : Aged P cap now (x :: q)) : ∃ born, P born x ∧ now < born + cap :=
  h 0 x rfl

/-- A service moves everything one place up. -/
theorem Aged.serve (h : Aged P cap now (x :: q)) : Aged P cap (now + 1) q := by
  intro i y hy
  obtain ⟨born, hborn, hage⟩ := h (i + 1) y hy
  exact ⟨born, hborn, by omega⟩

/-- What goes in now, and leaves the queue short enough, is young enough. -/
theorem Aged.enter (h : Aged P cap now q) {new : List α} (hnew : ∀ x ∈ new, P now x)
    (hshort : (q ++ new).length ≤ cap) : Aged P cap now (q ++ new) := by
  intro i y hy
  obtain ⟨hi, -⟩ := List.getElem?_eq_some_iff.mp hy
  rcases Nat.lt_or_ge i q.length with hold | hfresh
  · rw [List.getElem?_append_left hold] at hy
    exact h i y hy
  · rw [List.getElem?_append_right hfresh] at hy
    exact ⟨now, hnew y (List.mem_of_getElem? hy), by omega⟩

end Infra.Queue
