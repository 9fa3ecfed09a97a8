import Mathlib.Data.List.Dedup

/-!
# Least recently used

A recency order as a list of keys, most recent first. `recent ks` is the order a sequence of
uses leaves: the distinct keys of `ks`, each at its last use. A bounded cache that moves each
used key to the front and drops what no longer fits (`promote`) holds the first `cap` of them.

* `recent_concat` — one more use moves its key to the front
* `promote_take` — the bounded cache follows the first `cap` keys of the unbounded order
* `promote_of_mem`, `promote_of_room`, `promote_of_full` — the three cases an implementation has
-/

namespace Infra.Recency

variable {α : Type*} [DecidableEq α]

/-- The distinct keys of `ks`, the most recently used first. -/
def recent (ks : List α) : List α := ks.dedup.reverse

/-- One use in a cache of `cap` keys. -/
def promote (cap : ℕ) (l : List α) (k : α) : List α := (k :: l.erase k).take cap

theorem nodup_recent (ks : List α) : (recent ks).Nodup := by
  rw [recent, List.nodup_reverse]
  exact ks.nodup_dedup

@[simp] theorem recent_nil : recent ([] : List α) = [] := rfl

@[simp] theorem mem_recent {ks : List α} {k : α} : k ∈ recent ks ↔ k ∈ ks := by
  simp [recent]

theorem dedup_concat (ks : List α) (k : α) : (ks ++ [k]).dedup = ks.dedup.erase k ++ [k] := by
  induction ks with
  | nil => simp
  | cons a ks ih =>
    by_cases ha : a ∈ ks
    · rw [List.cons_append, List.dedup_cons_of_mem (by simp [ha]), ih, List.dedup_cons_of_mem ha]
    · rw [List.dedup_cons_of_notMem ha, List.cons_append]
      by_cases hak : a = k
      · subst hak
        rw [List.dedup_cons_of_mem (by simp), ih, List.erase_cons_head,
          List.erase_of_not_mem (by simpa using ha)]
      · rw [List.dedup_cons_of_notMem (by simp [ha, hak]), ih,
          List.erase_cons_tail (by simpa using hak), List.cons_append]

theorem recent_concat (ks : List α) (k : α) : recent (ks ++ [k]) = k :: (recent ks).erase k := by
  have hrev : (ks.dedup.erase k).reverse = ks.dedup.reverse.erase k := by
    rw [ks.nodup_dedup.erase_eq_filter,
      (List.nodup_reverse.mpr ks.nodup_dedup).erase_eq_filter, List.filter_reverse]
  rw [recent, dedup_concat, List.reverse_append, hrev]
  rfl

/-- **A cache of `cap` keys holds the first `cap` keys of the recency order.** -/
theorem promote_take {l : List α} (hl : l.Nodup) (cap : ℕ) (k : α) :
    promote cap (l.take cap) k = (k :: l.erase k).take cap := by
  cases cap with
  | zero => simp [promote]
  | succ c =>
    simp only [promote, List.take_succ_cons, List.cons.injEq, true_and]
    by_cases hk : k ∈ l.take (c + 1)
    · -- the key is cached: it leaves the same place of both lists
      obtain ⟨a, b, hab⟩ := List.append_of_mem hk
      have hl' : l = a ++ k :: (b ++ l.drop (c + 1)) := by
        conv_lhs => rw [← List.take_append_drop (c + 1) l, hab]
        simp
      have hka : k ∉ a := by
        intro hm
        rw [hl', List.nodup_append] at hl
        exact hl.2.2 k hm k (by simp) rfl
      rw [hab, List.erase_append_right _ hka, List.erase_cons_head]
      conv_rhs => rw [hl', List.erase_append_right _ hka, List.erase_cons_head, ← List.append_assoc]
      have hlen : (a ++ b).length ≤ c := by
        have h1 := congrArg List.length hab
        have h2 : (l.take (c + 1)).length ≤ c + 1 := List.length_take_le _ _
        simp only [List.length_append, List.length_cons] at h1 ⊢
        omega
      rw [List.take_of_length_le hlen]
      by_cases hfull : (a ++ b).length = c
      · rw [List.take_append_of_le_length (by omega), List.take_of_length_le hlen]
      · -- a cache with room holds every key
        have hdrop : l.drop (c + 1) = [] := by
          rw [List.drop_eq_nil_iff]
          have h1 := congrArg List.length hab
          simp only [List.length_append, List.length_cons, List.length_take] at h1 hfull hlen
          omega
        rw [hdrop, List.append_nil, List.take_of_length_le hlen]
    · rw [List.erase_of_not_mem hk, List.take_take, Nat.min_eq_left (by omega)]
      by_cases hm : k ∈ l
      · -- the key is further down: dropping it changes nothing before it
        rw [← List.take_append_drop (c + 1) l, List.erase_append_right _ hk,
          List.take_append_drop]
        rw [← List.take_append_drop (c + 1) l, List.mem_append] at hm
        have hlen : (l.take (c + 1)).length = c + 1 := by
          rw [List.length_take, Nat.min_eq_left]
          by_contra hc
          have : l.drop (c + 1) = [] := by rw [List.drop_eq_nil_iff]; omega
          simp [this, hk] at hm
        rw [List.take_append_of_le_length (by omega), List.take_take, Nat.min_eq_left (by omega)]
      · rw [List.erase_of_not_mem hm]

theorem promote_recent (cap : ℕ) (ks : List α) (k : α) :
    promote cap ((recent ks).take cap) k = (recent (ks ++ [k])).take cap := by
  rw [promote_take (nodup_recent ks), recent_concat]

/-! ## The three cases of a use -/

/-- A cached key moves to the front. -/
theorem promote_of_mem {cap : ℕ} {a b : List α} {k : α} (hl : (a ++ k :: b).length ≤ cap)
    (hk : k ∉ a) : promote cap (a ++ k :: b) k = k :: (a ++ b) := by
  rw [promote, List.erase_append_right _ hk, List.erase_cons_head]
  apply List.take_of_length_le
  simp only [List.length_append, List.length_cons] at hl ⊢
  omega

/-- A new key goes to the front of a cache with room. -/
theorem promote_of_room {cap : ℕ} {l : List α} {k : α} (hl : l.length < cap) (hk : k ∉ l) :
    promote cap l k = k :: l := by
  rw [promote, List.erase_of_not_mem hk]
  exact List.take_of_length_le (by simp only [List.length_cons]; omega)

/-- A new key pushes the last key out of a full cache. -/
theorem promote_of_full {cap : ℕ} {a : List α} {x k : α} (hl : (a ++ [x]).length = cap)
    (hk : k ∉ a ++ [x]) : promote cap (a ++ [x]) k = k :: a := by
  rw [promote, List.erase_of_not_mem hk, ← List.cons_append]
  have : cap = (k :: a).length := by simpa using hl.symm
  rw [this, List.take_append_of_le_length (Nat.le_refl _), List.take_length]

end Infra.Recency
