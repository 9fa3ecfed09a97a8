import Mathlib.Data.Rat.Defs
import RustyTime.Properties.ClientTable

/-!
# A stale handle is inert

A handle names a slot and the generation the slot had when the handle was issued. A slot's
generation counts the clients it was handed to (`generation_run`), modulo `2 ^ 32`, and a client
that leaves the table leaves because its slot was handed on (`tenure_iff`). So a handle resolves
for exactly as long as the client it was issued for stays.

* `handle_inert` — while the tenure lasts the handle is the client's own record, after it the
  handle does nothing
-/

namespace RustyTime.ClientTable

open Infra.Chain Index

set_option linter.unusedSectionVars false

variable {K R : Type} [DecidableEq K] {t t' : ClientTable K R} {n : ℕ} [NeZero n] {l l' : List ℕ}
  {i s g : ℕ} {key : K} {now : R}

/-! ## What a handle may do -/

/-- The handle's operations do nothing. -/
def Inert (t : ClientTable K R) (h : ClientHandle) : Prop :=
  ∀ receive sent transmit origin, t.noteResponseAt h receive sent = t ∧
    t.noteTransmitAt h transmit = t ∧ t.responseModeAt h origin = (t, .basic)

/-- The handle's operations read and change the record of `key`, in the key's own slot, and
nothing else but the counter of interleaved responses. -/
structure Owns (t : ClientTable K R) (h : ClientHandle) (key : K) : Prop where
  slot : t.index.get key t.slots = some h.slot
  frame : ∀ f other, (t.setRecord h.slot f).get other
    = if other = key then (t.get key).map f else t.get other
  noteResponse : ∀ receive sent, t.noteResponseAt h receive sent
    = t.setRecord h.slot fun r => { r with lastReceive := receive, lastReceiveSent := sent }
  noteTransmit : ∀ transmit, t.noteTransmitAt h transmit
    = t.setRecord h.slot fun r => { r with lastTransmit := transmit }
  responseMode : ∀ origin, ∃ r, t.get key = some r ∧ t.responseModeAt h origin =
    if r.lastReceiveSent.isZero || r.lastTransmit.isZero then (t, .basic)
    else
      let interleaved := origin == r.lastReceiveSent && !origin.isZero
      let marked := t.setRecord h.slot fun r => { r with interleavedNow := interleaved }
      if interleaved then
        ({ marked with stats :=
            { t.stats with interleavedResponses := t.stats.interleavedResponses + 1 } },
          .interleaved r.lastTransmit)
      else (marked, .basic)

theorem resolve_eq_some (hc : (t.core s).map (fun c => c.2.2) = some g) :
    t.resolve ⟨s, g⟩ = some s := by
  obtain ⟨slot, hslot, hg⟩ : ∃ slot, t.slots[s]? = some slot ∧ slot.generation = g := by
    simpa [core] using hc
  simp [resolve, hslot, hg]

theorem resolve_eq_none {g' : ℕ} (hc : (t.core s).map (fun c => c.2.2) = some g') (hne : g' ≠ g) :
    t.resolve ⟨s, g⟩ = none := by
  obtain ⟨slot, hslot, hg⟩ : ∃ slot, t.slots[s]? = some slot ∧ slot.generation = g' := by
    simpa [core] using hc
  simp [resolve, hslot, hg, hne]

theorem inert_of_resolve {h : ClientHandle} (hr : t.resolve h = none) : Inert t h := by
  intro receive sent transmit origin
  simp [noteResponseAt, noteTransmitAt, responseModeAt, hr]

/-- Slots without a client are past the end, so the invalid handle resolves to nothing. -/
theorem resolve_invalid (h : Inv t n l) : t.resolve .invalid = none := by
  have h1 := h.bound
  have h2 := h.capacity_lt
  have : t.slots[linkNil]? = none := by simp; omega
  simp [resolve, ClientHandle.invalid, this]

theorem SameShape.index_get (hs : SameShape t t') (h : Settled t n l) (k : K) :
    t'.index.get k t'.slots = t.index.get k t.slots := by
  ext i
  rw [get_lookup (h.sameShape hs).toInv, get_lookup h.toInv, hs.keyOf]

/-- **Writing the record of a slot changes what `get` finds for its key only.** -/
theorem get_setRecord (h : Settled t n l) (hi : t.index.get key t.slots = some i)
    (f : ClientRecord R → ClientRecord R) (other : K) :
    (t.setRecord i f).get other = if other = key then (t.get key).map f else t.get other := by
  have hs := setRecord_sameShape t i f
  have hcore : ∀ u j, ((u : ClientTable K R).slots[j]?).map Slot.record
      = (u.core j).map fun c => c.2.1 := by
    intro u j
    simp [core, Function.comp_def]
  unfold ClientTable.get
  rw [hs.index_get h other]
  by_cases hk : other = key
  · subst hk
    simp only [hi, if_pos, hcore, core_setRecord, Option.map_map]
    rfl
  · rw [if_neg hk]
    cases ho : t.index.get other t.slots with
    | none => rfl
    | some j =>
      have hij : i ≠ j := by
        rintro rfl
        have h1 := ((get_lookup h.toInv).mp hi).2
        have h2 := ((get_lookup h.toInv).mp ho).2
        rw [h1] at h2
        cases h2
        exact hk rfl
      simp only [hcore, core_setRecord, if_neg hij]

theorem Settled.owns (h : Settled t n l) (hk : keyOf t.slots s = some key)
    (hg : (t.core s).map (fun c => c.2.2) = some g) : Owns t ⟨s, g⟩ key := by
  have hs : s < t.slots.size := by
    rw [← core_isSome_iff]
    cases hc : t.core s with
    | none => simp [hc] at hg
    | some c => rfl
  have hget : t.index.get key t.slots = some s :=
    (get_lookup h.toInv).mpr ⟨h.mem_iff.mpr hs, hk⟩
  have hr := resolve_eq_some hg
  refine ⟨hget, get_setRecord h hget, ?_, ?_, ?_⟩
  · intro receive sent
    simp [noteResponseAt, hr]
  · intro transmit
    simp [noteTransmitAt, hr]
  · intro origin
    refine ⟨t.slots[s].record, by simp [ClientTable.get, hget, hs], ?_⟩
    simp only [responseModeAt, hr, Array.getElem?_eq_getElem hs]
    rfl

/-! ## What becomes of a slot -/

section Runs

variable [Zero R] [One R] [Add R] [Sub R] [Mul R] [NatCast R] [Max R] [Min R]
  [LT R] [LE R] [DecidableLT R] [DecidableLE R]

/-- What slot `s` holds of its client: the key and the generation. -/
def name (t : ClientTable K R) (s : ℕ) : Option (K × ℕ) := (t.core s).map fun c => (c.1, c.2.2)

theorem name_generation : (t.core s).map (fun c => c.2.2) = (t.name s).map Prod.snd := by
  rw [name, Option.map_map]
  rfl

theorem name_keyOf : keyOf t.slots s = (t.name s).map Prod.fst := by
  rw [name, Option.map_map, keyOf_eq_core]
  rfl

/-- A client that no slot in use carries is found nowhere. -/
theorem get_absent (h : Settled t n l) (hno : ∀ j ∈ l, keyOf t.slots j ≠ some key) :
    t.get key = none := by
  have hnone := h.index.get_none hno
  simp [ClientTable.get, hnone]

/-- **An operation leaves the client of a slot alone, or hands the slot to a client that was not
in the table.** -/
theorem name_step (h : Settled t n l) (op : Op K R) (hn : t.name s = some (key, g)) :
    (t.allocated op ≠ some s ∧ (t.step op).name s = some (key, g)) ∨
      (t.allocated op = some s ∧ (t.step op).get key = none ∧
        ∃ key', (t.step op).name s = some (key', (g + 1) % 4294967296)) := by
  rcases op.admitHandle_or_other with ⟨k, now, rfl⟩ | hop
  · cases hg : t.passesGlobal now with
    | false =>
      refine .inl ⟨by simp [allocated, hg], ?_⟩
      exact ((rejected_sameShape k hg).names s).trans hn
    | true =>
      obtain ⟨t', i, l', hset, -, hfound, hsame, -, hslot⟩ := h.admitHandle k hg
      have hopen := openRequest_sameShape t now
      have halloc := allocated_admit h hg hslot hfound
      have hname : (t.step (.admitHandle k now)).name s = t'.name s := hsame.names s
      have hkeys : ∀ j, keyOf (t.openRequest now).slots j = keyOf t.slots j := hopen.keyOf
      rw [hname, halloc]
      cases hfound with
      | known a b live own core stats =>
        rw [hkeys] at own
        refine .inl ⟨by simp [own, live], ?_⟩
        rw [name, core, core_openRequest]
        exact hn
      | fresh new room slot core stats =>
        have hsi : s ≠ i := by
          rintro rfl
          rw [slot, hopen.size] at hn
          simp [name, core_eq_none_iff.mpr (le_refl _)] at hn
        rw [if_neg fun hi => new i hi.2 (by rw [hkeys]; exact hi.1)]
        refine .inl ⟨fun he => hsi (Option.some.inj he).symm, ?_⟩
        rw [name, core, if_neg hsi, core_openRequest]
        exact hn
      | reused a live new full core stats =>
        rw [if_neg fun hi => new i hi.2 (by rw [hkeys]; exact hi.1)]
        by_cases hsi : s = i
        · -- the slot is handed on: its old client is found nowhere
          subst hsi
          have hgen : (t.openRequest now).nextGeneration s = (g + 1) % 4294967296 := by
            rw [nextGeneration, core_openRequest]
            cases hc : t.core s with
            | none => simp [name, hc] at hn
            | some c =>
              simp only [name, hc, Option.map_some, Option.some.injEq, Prod.mk.injEq] at hn
              simp [hn.2]
          refine .inr ⟨rfl, ?_, k, by rw [name, core, if_pos rfl, hgen]; rfl⟩
          have hkey : keyOf t.slots s = some key := by rw [name_keyOf, hn]; rfl
          have hsl : s ∈ l := by simp [live]
          refine get_absent (hset.sameShape hsame) ?_
          intro j hj hkj
          change keyOf (t.admitHandle k now).1.slots j = some key at hkj
          rw [hsame.keyOf, keyOf_eq_core, core] at hkj
          by_cases hjs : j = s
          · rw [if_pos hjs] at hkj
            cases hkj
            exact new s hsl (by rw [hkeys]; exact hkey)
          · rw [if_neg hjs, core_openRequest, ← keyOf_eq_core] at hkj
            have hjl : j ∈ l := by
              rw [live]
              exact List.mem_append_left _ ((List.mem_cons.mp hj).resolve_left hjs)
            exact hjs (h.index.inj j hjl s hsl (hkj.trans hkey.symm))
        · refine .inl ⟨fun he => hsi (Option.some.inj he).symm, ?_⟩
          rw [name, core, if_neg hsi, core_openRequest]
          exact hn
  · rw [hop.allocated]
    exact .inl ⟨by simp, ((step_quiet hop).names s).trans hn⟩

theorem count_allocated (t : ClientTable K R) (op : Op K R) (s : ℕ) :
    (t.allocated op).toList.count s = if t.allocated op = some s then 1 else 0 := by
  cases t.allocated op with
  | none => rfl
  | some j => by_cases hj : j = s <;> simp [hj]

/-- A slot's generation counts the clients it was handed to. -/
theorem generation_run (h : Settled t n l) (ops : List (Op K R)) (hn : t.name s = some (key, g))
    (hlt : g < 4294967296) :
    ((t.run ops).name s).map Prod.snd = some ((g + (t.allocations ops).count s) % 4294967296) := by
  induction ops generalizing t l key g with
  | nil => simp [run, hn, allocations, Nat.mod_eq_of_lt hlt]
  | cons op ops ih =>
    obtain ⟨l', h'⟩ := h.step op
    change (((t.step op).run ops).name s).map Prod.snd = _
    rw [allocations, List.count_append, count_allocated]
    rcases name_step h op hn with ⟨ha, hn'⟩ | ⟨ha, -, key', hn'⟩
    · rw [ih h' hn' hlt, if_neg ha, Nat.zero_add]
    · rw [ih h' hn' (Nat.mod_lt _ (by omega)), if_pos ha, Nat.mod_add_mod, Nat.add_assoc]

theorem get_of_name (h : Settled t n l) (hn : t.name s = some (key, g)) : t.get key ≠ none := by
  have hs : s < t.slots.size := by
    rw [← core_isSome_iff]
    cases hc : t.core s with
    | none => simp [name, hc] at hn
    | some c => rfl
  have hget := (get_lookup h.toInv).mpr ⟨h.mem_iff.mpr hs, by rw [name_keyOf, hn]; rfl⟩
  simp [ClientTable.get, hget, hs]

/-- **A client's tenure lasts as long as its slot is not handed on.** -/
theorem tenure_iff (h : Settled t n l) (ops : List (Op K R)) (hn : t.name s = some (key, g)) :
    (∀ p, p <+: ops → (t.run p).get key ≠ none) ↔ (t.allocations ops).count s = 0 := by
  induction ops generalizing t l with
  | nil =>
    refine ⟨fun _ => rfl, fun _ p hp => ?_⟩
    rw [List.prefix_nil.mp hp]
    exact get_of_name h hn
  | cons op ops ih =>
    obtain ⟨l', h'⟩ := h.step op
    rw [allocations, List.count_append, count_allocated]
    rcases name_step h op hn with ⟨ha, hn'⟩ | ⟨ha, hgone, -⟩
    · rw [if_neg ha, Nat.zero_add, ← ih h' hn']
      refine ⟨fun hall p hp => hall (op :: p) (List.cons_prefix_cons.mpr ⟨rfl, hp⟩),
        fun hall p hp => ?_⟩
      rcases List.prefix_cons_iff.mp hp with rfl | ⟨rest, rfl, hrest⟩
      · exact get_of_name h hn
      · exact hall rest hrest
    · rw [if_pos ha]
      refine ⟨fun hall => absurd hgone (hall [op] (List.cons_prefix_cons.mpr ⟨rfl, ?_⟩)), by omega⟩
      exact List.nil_prefix

theorem name_run (h : Settled t n l) (ops : List (Op K R)) (hn : t.name s = some (key, g))
    (hc : (t.allocations ops).count s = 0) : (t.run ops).name s = some (key, g) := by
  induction ops generalizing t l with
  | nil => exact hn
  | cons op ops ih =>
    obtain ⟨l', h'⟩ := h.step op
    rw [allocations, List.count_append, count_allocated] at hc
    rcases name_step h op hn with ⟨ha, hn'⟩ | ⟨ha, -, -⟩
    · exact ih h' hn' (by omega)
    · rw [if_pos ha] at hc
      omega

/-- Generations are 32-bit. -/
theorem generation_lt_step (h : Settled t n l) (op : Op K R)
    (hlt : ∀ s key g, t.name s = some (key, g) → g < 4294967296) :
    ∀ s key g, (t.step op).name s = some (key, g) → g < 4294967296 := by
  intro s key g hs
  cases hn : t.name s with
  | some kg =>
    rcases name_step h op (show t.name s = some (kg.1, kg.2) from hn)
        with ⟨-, hn'⟩ | ⟨-, -, key', hn'⟩
    · rw [hs] at hn'
      cases hn'
      exact hlt s _ _ hn
    · rw [hs] at hn'
      cases hn'
      exact Nat.mod_lt _ (by omega)
  | none =>
    -- a slot that came to be has its first generation
    rcases op.admitHandle_or_other with ⟨k, now, rfl⟩ | hop
    · cases hg : t.passesGlobal now with
      | false =>
        have := ((rejected_sameShape k hg).names s).trans hn
        exact absurd (hs.symm.trans this) (by simp)
      | true =>
        obtain ⟨t', i, l', hset, -, hfound, hsame, -, -⟩ := h.admitHandle k hg
        have hname : t'.name s = some (key, g) := (hsame.names s).symm.trans hs
        have hsize : t.slots.size ≤ s := by
          rw [← core_eq_none_iff]
          simpa [name] using hn
        cases hfound with
        | known a b live own core stats =>
          rw [name, core, core_openRequest] at hname
          exact absurd (hname.symm.trans hn) (by simp)
        | fresh new room slot core stats =>
          rw [name, core, core_openRequest] at hname
          split at hname
          · cases hname
            exact Nat.zero_lt_succ _
          · exact absurd (hname.symm.trans hn) (by simp)
        | reused a live new full core stats =>
          have hi := h.lt_size (i := i) (by simp [live])
          rw [name, core, core_openRequest, if_neg (by omega)] at hname
          exact absurd (hname.symm.trans hn) (by simp)
    · have := ((step_quiet (t := t) hop).names s).trans hn
      exact absurd (hs.symm.trans this) (by simp)

theorem generation_lt_run (h : Settled t n l) (ops : List (Op K R))
    (hlt : ∀ s key g, t.name s = some (key, g) → g < 4294967296) :
    ∀ s key g, (t.run ops).name s = some (key, g) → g < 4294967296 := by
  induction ops generalizing t l with
  | nil => exact hlt
  | cons op ops ih =>
    obtain ⟨l', h'⟩ := h.step op
    exact ih h' (generation_lt_step h op hlt)

/-- The handle of an admission past the global limiter names the client's slot as it is then. -/
theorem admitHandle_name (h : Settled t n l) (hg : t.passesGlobal now = true) :
    (t.admitHandle key now).1.name (t.admitHandle key now).2.2.slot
      = some (key, (t.admitHandle key now).2.2.generation) := by
  obtain ⟨t', i, l', hset, -, hfound, hsame, hadm, -⟩ := h.admitHandle key hg
  have hkey : keyOf t'.slots i = some key := hfound.key_eq
  have hname : (t.admitHandle key now).1.name i = t'.name i := hsame.names i
  have hh : (t.admitHandle key now).2.2 = t'.handleFor i := by rw [hadm]
  rw [hh]
  change (t.admitHandle key now).1.name i = _
  rw [hname]
  obtain ⟨c, hc⟩ := hset.exists_core hfound.mem
  have hgen : (t'.handleFor i).generation = c.2.2 := by
    obtain ⟨slot, hslot, rfl⟩ : ∃ slot, t'.slots[i]? = some slot ∧
        (slot.key, slot.record, slot.generation) = c := by simpa [core] using hc
    simp [handleFor, hslot]
  rw [keyOf_eq_core, hc] at hkey
  cases hkey
  rw [hgen, name, hc]
  rfl

end Runs

/-! ## The result -/

section Reachable

variable [Zero R] [One R] [Add R] [Sub R] [Mul R] [NatCast R] [Max R] [Min R] [Pow R ℤ]
  [LT R] [LE R] [DecidableLT R] [DecidableLE R]

/--
**A stale handle is inert.** A handle that `admitHandle` issued for `key` is, after any further
run in which its slot is handed on fewer than `2 ^ 32` times, the key's own record while the
tenure lasts (the key is in the table after every prefix of the run), and does nothing once the
key has been out of the table. The invalid handle never resolves.
-/
theorem handle_inert {capacity : ℕ} {config : RateLimitConfig R} {hasher : K → UInt64}
    {t₀ : ClientTable K R} (hnew : new capacity config hasher = some t₀)
    (before after : List (Op K R)) (key : K) (now : R) :
    let issued := (t₀.run before).admitHandle key now
    let h := issued.2.2
    let t := issued.1.run after
    (issued.1.allocations after).count h.slot < 4294967296 →
      ((t₀.run before).resolve .invalid = none ∧ t.resolve .invalid = none) ∧
      (h ≠ .invalid → (∀ p, p <+: after → (issued.1.run p).get key ≠ none) → Owns t h key) ∧
      ((h = .invalid ∨ ∃ p, p <+: after ∧ (issued.1.run p).get key = none) → Inert t h) := by
  intro issued h t hfew
  obtain ⟨n, hn, hset₀⟩ := new_settled hnew
  obtain ⟨l, hset⟩ := hset₀.run before
  obtain ⟨l₁, hset₁⟩ := hset.step (.admitHandle key now)
  obtain ⟨l₂, hset₂⟩ := hset₁.run after
  change Settled issued.1 n l₁ at hset₁
  change Settled t n l₂ at hset₂
  have hinvalid := resolve_invalid hset₂.toInv
  refine ⟨⟨resolve_invalid hset.toInv, hinvalid⟩, ?_⟩
  cases hg : (t₀.run before).passesGlobal now with
  | false =>
    have hh : h = .invalid := by simp only [h, issued, admitHandle_rejected key hg]
    refine ⟨fun hne => absurd hh hne, fun _ => inert_of_resolve ?_⟩
    rw [hh]
    exact hinvalid
  | true =>
    have hname : issued.1.name h.slot = some (key, h.generation) := admitHandle_name hset hg
    have htenure := tenure_iff hset₁ after hname
    constructor
    · intro _ hlasts
      have hnow := name_run hset₁ after hname (htenure.mp hlasts)
      exact hset₂.owns (by rw [name_keyOf]; exact congrArg (Option.map Prod.fst) hnow)
        (by rw [name_generation]; exact congrArg (Option.map Prod.snd) hnow)
    · intro hended
      rcases hended with hh | ⟨p, hp, hgone⟩
      · rw [hh]
        exact inert_of_resolve hinvalid
      · have hpos : 0 < (issued.1.allocations after).count h.slot := by
          by_contra hc
          exact htenure.mpr (by omega) p hp hgone
        have hempty : ∀ s, t₀.core s = none := fun s =>
          core_eq_none_iff.mpr (by rw [← hset₀.length]; exact Nat.zero_le s)
        have hlt := generation_lt_run hset₀ (before ++ [.admitHandle key now])
          (fun s _ _ hs => by simp [name, hempty s] at hs) h.slot key h.generation
          (by rw [run_append]; exact hname)
        have hgen := generation_run hset₁ after hname hlt
        exact inert_of_resolve (resolve_eq_none (g := h.generation)
          (name_generation.trans hgen) (by omega))

/-- In a table of one slot, the first client's handle is inert once a second client came. -/
theorem handle_inert_evicted :
    ∃ t₀ : ClientTable ℕ ℚ, new 1 ⟨0, 1, 0, 0, 0⟩ (fun _ => 7) = some t₀ ∧
      Inert ((t₀.admitHandle 5 0).1.run [.admitHandle 6 1]) (t₀.admitHandle 5 0).2.2 := by
  have h (t₀ : ClientTable ℕ ℚ) (hnew : new 1 ⟨0, 1, 0, 0, 0⟩ (fun _ => 7) = some t₀) :=
    handle_inert hnew [] [.admitHandle 6 1] 5 0
  refine ⟨_, rfl, (h _ rfl ?_).2.2 (.inr ⟨[.admitHandle 6 1], List.prefix_refl _, ?_⟩)⟩
  · decide +kernel
  · decide +kernel

end Reachable

end RustyTime.ClientTable
