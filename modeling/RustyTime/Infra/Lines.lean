import Mathlib.Data.List.Basic

/-!
# A string cut into lines

A line keeps the mark it ends in. Only the last one may lack it.

* `flatten_split` — the lines are the string
* `split_flatten` — lines in front are the first ones
-/

namespace Infra.Lines

variable {α : Type} [DecidableEq α] (mark : α)

/-- The lines of a string. -/
def split : List α → List (List α)
  | [] => []
  | a :: as =>
    if a = mark then [a] :: split as
    else
      match split as with
      | [] => [[a]]
      | line :: lines => (a :: line) :: lines

@[simp] theorem flatten_split (as : List α) : (split mark as).flatten = as := by
  induction as with
  | nil => rfl
  | cons a as ih =>
    unfold split
    split
    · rw [List.flatten_cons, ih]
      rfl
    · split
      · next hnil =>
        rw [hnil] at ih
        rw [← ih]
        rfl
      · next hcons =>
        rw [hcons] at ih
        rw [← ih]
        rfl

/-- **A line in front is the first one.** -/
theorem split_line {line : List α} (h : mark ∉ line) (rest : List α) :
    split mark (line ++ mark :: rest) = (line ++ [mark]) :: split mark rest := by
  induction line with
  | nil => simp [split]
  | cons a line ih =>
    rw [List.mem_cons, not_or] at h
    rw [List.cons_append, split, if_neg (Ne.symm h.1), ih h.2]
    rfl

/-- **Lines written one after another are read**, whatever follows them. -/
theorem split_flatten {lines : List (List α)} (h : ∀ line ∈ lines, mark ∉ line) (rest : List α) :
    split mark ((lines.map (· ++ [mark])).flatten ++ rest) =
      lines.map (· ++ [mark]) ++ split mark rest := by
  induction lines with
  | nil => rfl
  | cons line lines ih =>
    rw [List.map_cons, List.flatten_cons, List.append_assoc, List.append_assoc,
      List.singleton_append, split_line mark (h line List.mem_cons_self),
      ih fun l hl => h l (List.mem_cons_of_mem _ hl)]
    rfl

end Infra.Lines
