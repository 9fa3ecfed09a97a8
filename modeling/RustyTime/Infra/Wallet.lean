import Mathlib.Data.List.Flatten
import Mathlib.Data.List.Perm.Subperm

/-!
# Tokens drawn in batches

A holder spends tokens one at a time, loses some, and draws new ones in batches. While no batch
is drawn twice and no two batches share a token, no token is spent twice.

* `Backed.spend`, `Backed.lose`, `Backed.draw` — what keeps a wallet backed
* `Backed.nodup` — the tokens of a backed wallet are all different
-/

namespace Infra

/-- Tokens spent, tokens held, and the batches some of them came in. -/
structure Wallet (α β : Type*) where
  spent : List α
  held : List α
  drawn : List β

namespace Wallet

open List

variable {α β : Type*} {initial : List α} {batch : β → List α}

/-- Every token spent or held is one of the first, or one of a batch drawn once. -/
structure Backed (initial : List α) (batch : β → List α) (w : Wallet α β) : Prop where
  tokens : (w.spent ++ w.held).Subperm (initial ++ w.drawn.flatMap batch)
  once : w.drawn.Nodup

variable {w : Wallet α β}

/-- A token spent is a token held before. -/
theorem Backed.spend (h : w.Backed initial batch) {token : α} {held : List α}
    (hheld : w.held = token :: held) :
    Backed initial batch ⟨w.spent ++ [token], held, w.drawn⟩ where
  tokens := by simpa [hheld] using h.tokens
  once := h.once

theorem Backed.lose (h : w.Backed initial batch) {token : α} {held : List α}
    (hheld : w.held = token :: held) : Backed initial batch ⟨w.spent, held, w.drawn⟩ where
  tokens := by
    have hless : (w.spent ++ held).Sublist (w.spent ++ w.held) := by
      rw [hheld]
      exact (List.sublist_cons_self token held).append_left w.spent
    exact hless.subperm.trans h.tokens
  once := h.once

/-- A batch not drawn before: some of its tokens are held, the rest are lost. -/
theorem Backed.draw (h : w.Backed initial batch) {b : β} (hfresh : b ∉ w.drawn)
    {tokens : List α} (htokens : tokens.Sublist (batch b)) :
    Backed initial batch ⟨w.spent, w.held ++ tokens, w.drawn ++ [b]⟩ where
  tokens := by
    have hboth := h.tokens.append htokens.subperm
    simpa [List.append_assoc] using hboth
  once := by
    rw [List.nodup_append]
    refine ⟨h.once, by simp, ?_⟩
    intro drawn hdrawn other hother heq
    rw [List.mem_singleton.mp hother] at heq
    exact hfresh (heq ▸ hdrawn)

/-- **No token twice**, where the first tokens and those of all batches are different. -/
theorem Backed.nodup (h : w.Backed initial batch) {issued : List β} (hissued : w.drawn ⊆ issued)
    (hfresh : (initial ++ issued.flatMap batch).Nodup) : (w.spent ++ w.held).Nodup := by
  obtain ⟨drawn, hperm, hsub⟩ := List.subperm_of_subset h.once hissued
  have hbatches : (w.drawn.flatMap batch).Subperm (issued.flatMap batch) :=
    ⟨drawn.flatMap batch, hperm.flatMap_right batch, hsub.flatMap batch⟩
  have hall := h.tokens.trans ((List.subperm_append_left initial).mpr hbatches)
  obtain ⟨tokens, htokens, hin⟩ := hall
  exact htokens.nodup_iff.mp (hfresh.sublist hin)

end Wallet

end Infra
