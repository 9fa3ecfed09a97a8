import Mathlib.Algebra.BigOperators.Group.Finset.Basic
import Mathlib.Algebra.Order.BigOperators.Group.Finset
import Mathlib.Data.Rat.Cast.Order
import RustyTime.Infra.TokenBucket
import RustyTime.Properties.ClientHandles

/-!
# The rate limiter bounds the output

Token arithmetic over an ordered field. The global bucket and each client's bucket are token
buckets in the sense of `Infra.TokenBucket`; an operation moves each of them by one refill and
at most one payment.

* `Governed.run` — all responses together, by the global bucket
* `responds_le_client` — one client's responses during one stay in the table
* `leaks_run` — Kiss-o'-Death answers are at most one in `period` drops
* `counted_run` — every request is a response or a drop
* `rate_limited` — the four together
-/

namespace RustyTime.ClientTable

open Infra.TokenBucket Index

set_option linter.unusedSectionVars false

variable {K R : Type} [DecidableEq K] {n : ℕ} [NeZero n] {l l' : List ℕ} {s g : ℕ} {key : K}

/-! ## Counters -/

section Counters

variable [Zero R] [One R] [Add R] [Sub R] [Mul R] [NatCast R] [Max R] [Min R]
  [LT R] [LE R] [DecidableLT R] [DecidableLE R] {t t' : ClientTable K R} {now : R}

/-- One if the answer is a response. -/
def responded (d : Disposition) : ℕ := if d = .respond then 1 else 0

/-- The responses among some answers. -/
def responds (as : List (Answer K R)) : ℕ := as.countP fun a => a.disposition = .respond

theorem Settled.stats_admitHandle (h : Settled t n l) (key : K) (now : R) :
    ∃ evicted, (t.admitHandle key now).1.stats
      = { tally { t.stats with requests := t.stats.requests + 1 } (t.admitHandle key now).2.1 with
          evicted := evicted } := by
  cases hg : t.passesGlobal now with
  | false =>
    refine ⟨t.stats.evicted, ?_⟩
    rw [admitHandle_rejected key hg]
    unfold dropGlobal
    dsimp only
    split <;> simp [tally]
  | true =>
    obtain ⟨t', i, l', hset, -, hfound, hsame, hadm, -⟩ := h.admitHandle key hg
    obtain ⟨c, hc⟩ := hset.exists_core hfound.mem
    have hstats : ∃ evicted, t'.stats
        = { t.stats with requests := t.stats.requests + 1, evicted := evicted } := by
      cases hfound with
      | known a b live own core stats => exact ⟨t.stats.evicted, by rw [stats, stats_openRequest]⟩
      | fresh new room slot core stats =>
        exact ⟨t.stats.evicted, by rw [stats, stats_openRequest]⟩
      | reused a live new full core stats =>
        exact ⟨t.stats.evicted + 1, by rw [stats, stats_openRequest]⟩
    obtain ⟨evicted, hstats⟩ := hstats
    refine ⟨evicted, ?_⟩
    rw [hadm]
    simp only
    rw [stats_charge hc, hstats]
    cases (t'.charge i now).2 <;> rfl

/-- Every request is a response or a drop. -/
structure Counted (t : ClientTable K R) (requests responses : ℕ) : Prop where
  requests : t.stats.requests = requests
  responses : t.stats.responses = responses
  total : t.stats.requests = t.stats.responses + t.stats.droppedRateLimit

theorem counted_step (h : Settled t n l) {q p : ℕ} (hc : Counted t q p) (op : Op K R) :
    Counted (t.step op) (q + (t.answer op).toList.length) (p + responds (t.answer op).toList) := by
  rcases op.admitHandle_or_other with ⟨key, now, rfl⟩ | hop
  · obtain ⟨evicted, hs⟩ := h.stats_admitHandle key now
    have hstep : (t.step (.admitHandle key now)).stats = _ := hs
    have htotal := hc.total
    have hreq := hc.requests
    have hresp := hc.responses
    have hanswer : t.answer (.admitHandle key now)
        = some ⟨key, now, (t.admitHandle key now).2.1, (t.admitHandle key now).2.2⟩ := rfl
    rw [hanswer]
    cases hd : (t.admitHandle key now).2.1 <;> rw [hd] at hstep <;>
      refine ⟨?_, ?_, ?_⟩ <;> rw [hstep] <;> simp [tally, responds] <;> omega
  · have hq := step_quiet (t := t) hop
    rw [hop.answer]
    refine ⟨hq.requests.trans hc.requests, hq.responses.trans hc.responses, ?_⟩
    rw [hq.requests, hq.responses, hq.dropped]
    exact hc.total

theorem responds_append (as bs : List (Answer K R)) :
    responds (as ++ bs) = responds as + responds bs := by
  simp [responds]

/-- **Every request is counted once, as a response or as a drop.** -/
theorem counted_run (h : Settled t n l) {q p : ℕ} (hc : Counted t q p) (ops : List (Op K R)) :
    Counted (t.run ops) (q + (t.answers ops).length) (p + responds (t.answers ops)) := by
  induction ops generalizing t l q p with
  | nil => simpa [run, answers, responds] using hc
  | cons op ops ih =>
    obtain ⟨l', h'⟩ := h.step op
    have := ih h' (counted_step h hc op)
    rw [answers, List.length_append, responds_append, ← Nat.add_assoc, ← Nat.add_assoc]
    exact this

/-! ## The parameters of a table do not change -/

theorem config_step (h : Settled t n l) (op : Op K R) :
    (t.step op).config = t.config ∧ (t.step op).refillPerS = t.refillPerS := by
  rcases op.admitHandle_or_other with ⟨key, now, rfl⟩ | hop
  · cases hg : t.passesGlobal now with
    | false =>
      have hs := rejected_sameShape key hg
      exact ⟨hs.config, hs.refillPerS⟩
    | true =>
      obtain ⟨t', i, l', -, hlim, -, hsame, -, -⟩ := h.admitHandle key hg
      have hopen := openRequest_sameShape t now
      exact ⟨(hsame.config.trans hlim.config).trans hopen.config,
        (hsame.refillPerS.trans hlim.refillPerS).trans hopen.refillPerS⟩
  · exact ⟨(step_quiet hop).config, (step_quiet hop).refillPerS⟩

theorem config_run (h : Settled t n l) (ops : List (Op K R)) :
    (t.run ops).config = t.config ∧ (t.run ops).refillPerS = t.refillPerS := by
  induction ops generalizing t l with
  | nil => exact ⟨rfl, rfl⟩
  | cons op ops ih =>
    obtain ⟨l', h'⟩ := h.step op
    obtain ⟨h1, h2⟩ := config_step h op
    obtain ⟨h3, h4⟩ := ih h'
    exact ⟨h3.trans h1, h4.trans h2⟩

/-! ## The leak -/

/-- Drops of the client in slot `i` since its last Kiss-o'-Death. -/
def dropsAt (t : ClientTable K R) (i : ℕ) : ℕ :=
  ((t.core i).map fun c => c.2.1.dropsSinceKod).getD 0

/-- All drops that no Kiss-o'-Death has answered for yet, of the clients in the table. -/
def pendingDrops (t : ClientTable K R) : ℕ := ∑ i ∈ Finset.range t.capacity, t.dropsAt i

/-- Each Kiss-o'-Death is paid for by `period` drops of one counter. -/
def Leaks (t : ClientTable K R) : Prop :=
  t.stats.kissOfDeath * t.config.period + t.globalDropsSinceKod + t.pendingDrops
    ≤ t.stats.droppedRateLimit

/-- A sum changes by what its one changed term changes by. -/
theorem sum_change {f f' : ℕ → ℕ} {m i : ℕ} (hi : i < m) (hf : ∀ j, j ≠ i → f' j = f j) :
    ∑ j ∈ Finset.range m, f' j + f i = ∑ j ∈ Finset.range m, f j + f' i := by
  have hmem : i ∈ Finset.range m := Finset.mem_range.mpr hi
  rw [← Finset.add_sum_erase _ _ hmem, ← Finset.add_sum_erase _ f hmem]
  have : ∑ j ∈ (Finset.range m).erase i, f' j = ∑ j ∈ (Finset.range m).erase i, f j :=
    Finset.sum_congr rfl fun j hj => hf j (Finset.ne_of_mem_erase hj)
  rw [this]
  omega

/-- Taking a slot forgets at most the drops of the client that had it. -/
theorem Found.pendingDrops_le {now : R} {i : ℕ} (hf : Found t l key now t' i l')
    (hcap : t'.capacity = t.capacity) : t'.pendingDrops ≤ t.pendingDrops := by
  have hle : ∀ {g : ℕ}, (∀ j, t'.core j =
      if j = i then some (key, ClientRecord.new now t.config.burst, g) else t.core j) →
      t'.pendingDrops ≤ t.pendingDrops := by
    intro g hcore
    rw [pendingDrops, pendingDrops, hcap]
    refine Finset.sum_le_sum ?_
    intro j _
    rw [dropsAt, hcore]
    split
    · simp [ClientRecord.new]
    · rfl
  cases hf with
  | known a b live own core stats =>
    rw [pendingDrops, pendingDrops, hcap]
    exact (Finset.sum_congr rfl fun j _ => by rw [dropsAt, core, dropsAt]).le
  | fresh new room slot core stats => exact hle core
  | reused a live new full core stats => exact hle core

/-- What a charge does to the client's leak counter. -/
theorem drops_chargedRecord (t : ClientTable K R) (r : ClientRecord R) (now : R) :
    match (t.chargedRecord r now).2 with
    | .respond => (t.chargedRecord r now).1.dropsSinceKod = r.dropsSinceKod
    | .kissOfDeath => (t.chargedRecord r now).1.dropsSinceKod = 0 ∧
        t.config.period ≤ r.dropsSinceKod + 1
    | .drop => (t.chargedRecord r now).1.dropsSinceKod = r.dropsSinceKod + 1 := by
  unfold chargedRecord settle
  by_cases h1 : 1 ≤ (r.refill now t.refillPerS t.config.burst).tokens
  · simp only [if_pos h1]
    rfl
  · simp only [if_neg h1]
    by_cases h2 : t.config.period ≤ (r.refill now t.refillPerS t.config.burst).dropsSinceKod + 1
    · simp only [if_pos h2]
      exact ⟨trivial, h2⟩
    · simp only [if_neg h2]
      rfl

theorem leaks_charge {c : K × ClientRecord R × ℕ} {i : ℕ} (hc : t.core i = some c)
    (hi : i < t.capacity) (now : R) (h : Leaks t) : Leaks (t.charge i now).1 := by
  have hcore := core_charge hc now
  have hother : ∀ j, j ≠ i → (t.charge i now).1.dropsAt j = t.dropsAt j := by
    intro j hj
    rw [dropsAt, hcore, if_neg (Ne.symm hj), dropsAt]
  have hsum := sum_change hi hother
  have hold : t.dropsAt i = c.2.1.dropsSinceKod := by simp [dropsAt, hc]
  have hnew : (t.charge i now).1.dropsAt i = (t.chargedRecord c.2.1 now).1.dropsSinceKod := by
    simp [dropsAt, hcore]
  have hdrops := drops_chargedRecord t c.2.1 now
  have hd := disposition_charge hc now
  have hstats := stats_charge hc now
  have hshape := charge_sameShape t i now
  have hglobal : (t.charge i now).1.globalDropsSinceKod = t.globalDropsSinceKod := by
    rw [charge_eq hc]
    rfl
  unfold Leaks pendingDrops at h ⊢
  rw [hstats, hshape.config, hshape.capacity, hglobal, hd]
  rw [hold, hnew] at hsum
  cases hdisp : (t.chargedRecord c.2.1 now).2 <;> rw [hdisp] at hdrops <;> simp only at hdrops <;>
    simp only [tally, Nat.add_mul, Nat.one_mul] <;> omega

theorem leaks_openRequest (hl : Leaks t) (now : R) : Leaks (t.openRequest now) := by
  unfold Leaks at hl ⊢
  have hsum : (t.openRequest now).pendingDrops = t.pendingDrops := by
    unfold pendingDrops dropsAt
    rw [core_openRequest, (openRequest_sameShape t now).capacity]
  have hglobal : (t.openRequest now).globalDropsSinceKod = t.globalDropsSinceKod := by
    unfold openRequest
    dsimp only
    split <;> rfl
  rw [hsum, hglobal, stats_openRequest, (openRequest_sameShape t now).config]
  exact hl

/-- A drop of the global limiter is one more that may still leak. -/
theorem leaks_dropGlobal (hl : Leaks t) : Leaks t.dropGlobal.1 := by
  have hpending : ∀ d : ClientTable K R, d.core = t.core → d.capacity = t.capacity →
      d.pendingDrops = t.pendingDrops := by
    intro d hd hcap
    unfold pendingDrops dropsAt
    rw [hd, hcap]
  unfold Leaks at hl ⊢
  rw [hpending _ (core_dropGlobal t) (dropGlobal_sameShape t).capacity]
  unfold dropGlobal
  dsimp only
  split
  · next hp =>
    simp only [Nat.add_mul, Nat.one_mul]
    omega
  · simp only
    omega

/-- What admits nobody keeps every count. -/
theorem leaks_quiet (hl : Leaks t) {op : Op K R} (hop : op.Other) : Leaks (t.step op) := by
  have hq := step_quiet (t := t) hop
  have hsum : (t.step op).pendingDrops = t.pendingDrops := by
    unfold pendingDrops
    rw [hq.capacity]
    refine Finset.sum_congr rfl ?_
    intro i _
    have := congrArg (Option.map fun p => p.2.2.2.2.2) (hq.limits i)
    rw [Option.map_map, Option.map_map] at this
    exact congrArg (Option.getD · 0) this
  unfold Leaks at hl ⊢
  rw [hsum, hq.kissOfDeath, hq.dropped, hq.config, hq.globalDropsSinceKod]
  exact hl

theorem leaks_step (h : Settled t n l) (hl : Leaks t) (op : Op K R) : Leaks (t.step op) := by
  rcases op.admitHandle_or_other with ⟨key, now, rfl⟩ | hop
  · have hopen := leaks_openRequest hl now
    cases hg : t.passesGlobal now with
    | false =>
      simp only [step, admitHandle_rejected key hg]
      exact leaks_dropGlobal hopen
    | true =>
      obtain ⟨t', i, l', hset, hlim, hfound, hsame, hadm, -⟩ := h.admitHandle key hg
      have hi := hset.lt_size hfound.mem
      obtain ⟨c, hc⟩ := hset.exists_core hfound.mem
      simp only [step, hadm]
      refine leaks_charge hc (lt_of_lt_of_le hi hset.bound) now ?_
      have hpend := hfound.pendingDrops_le hlim.capacity
      have hkod : t'.stats.kissOfDeath = (t.openRequest now).stats.kissOfDeath ∧
          t'.stats.droppedRateLimit = (t.openRequest now).stats.droppedRateLimit := by
        cases hfound <;> simp_all
      unfold Leaks at hopen ⊢
      rw [hkod.1, hkod.2, hlim.config, hlim.globalDropsSinceKod]
      omega
  · exact leaks_quiet hl hop

/-- **At most one drop in `period` is answered with a Kiss-o'-Death.** -/
theorem leaks_run (h : Settled t n l) (hl : Leaks t) (ops : List (Op K R)) :
    Leaks (t.run ops) := by
  induction ops generalizing t l with
  | nil => exact hl
  | cons op ops ih =>
    obtain ⟨l', h'⟩ := h.step op
    exact ih h' (leaks_step h hl op)

end Counters

/-! ## The buckets -/

section Buckets

variable [Field R] [LinearOrder R] [IsStrictOrderedRing R] {t t' : ClientTable K R} {now first : R}

/-- The level of the global bucket after an admission. -/
theorem global_admitHandle (h : Settled t n l) (key : K) (now : R) :
    (t.step (.admitHandle key now)).globalTokens
        = (t.openRequest now).globalTokens - responded (t.admitHandle key now).2.1 ∧
      (t.step (.admitHandle key now)).globalLast = (t.openRequest now).globalLast ∧
      ((t.admitHandle key now).2.1 = .respond → t.passesGlobal now = true) := by
  cases hg : t.passesGlobal now with
  | false =>
    simp only [step, admitHandle_rejected key hg]
    unfold dropGlobal
    dsimp only
    split <;> simp [responded]
  | true =>
    obtain ⟨t', i, l', hset, hlim, hfound, hsame, hadm, -⟩ := h.admitHandle key hg
    obtain ⟨c, hc⟩ := hset.exists_core hfound.mem
    have hlast : (t'.charge i now).1.globalLast = t'.globalLast := by
      rw [charge_eq hc]
      rfl
    simp only [step, hadm, implies_true, and_true]
    rw [globalTokens_charge hc, hlast, hlim.globalTokens, hlim.globalLast, responded]
    split <;> simp

/-- The global bucket, with `spent` responses paid for so far: untouched before the first
admission, then refilled at every one. -/
def Governed (t : ClientTable K R) (first : R) (spent : ℕ) (later : List R) : Prop :=
  (t.globalLast = none ∧ t.globalTokens = t.config.globalBurst ∧ spent = 0 ∧
      ∀ s ∈ later.head?, s = first) ∨
    ∃ last, t.globalLast = some last ∧
      Within t.config.globalBurst t.config.globalRateHz first (spent : R) t.globalTokens last ∧
      ∀ s ∈ later, last ≤ s

theorem Governed.step (hs : Settled t n l) {op : Op K R} {ops : List (Op K R)} {spent : ℕ}
    (h : Governed t first spent (times (op :: ops)))
    (ht : (times (op :: ops)).Pairwise (· ≤ ·)) (hrate : 0 < t.config.globalRateHz)
    (hburst : 0 ≤ t.config.globalBurst) :
    Governed (t.step op) first (spent + responds (t.answer op).toList) (times ops) := by
  have hconf := (config_step hs op).1
  rcases op.admitHandle_or_other with ⟨key, now, rfl⟩ | hop
  · change (now :: times ops).Pairwise _ at ht
    obtain ⟨htok, hlast, hpass⟩ := global_admitHandle hs key now
    have hopen : t.openRequest now
        = ({ t with stats := { t.stats with requests := t.stats.requests + 1 } }
            : ClientTable K R).refillGlobal now := by
      unfold openRequest
      dsimp only
      rw [if_pos hrate]
    -- one refill of the bucket, from whichever state it was in
    have hrefill : Within t.config.globalBurst t.config.globalRateHz first (spent : R)
        (t.openRequest now).globalTokens now := by
      rw [hopen]
      unfold refillGlobal
      dsimp only
      rcases h with ⟨hnone, hfull, rfl, hfirst⟩ | ⟨last, hsome, hwithin, hle⟩
      · have hnow : now = first := hfirst now rfl
        rw [hnone, hfull, Option.getD_none, hnow, Nat.cast_zero]
        exact (Within.start hburst).refill hburst hrate.le (le_refl first)
      · rw [hsome, Option.getD_some]
        exact hwithin.refill hburst hrate.le (hle now (by exact List.mem_cons_self))
    have hanswer : responds (t.answer (.admitHandle key now)).toList
        = responded (t.admitHandle key now).2.1 := by
      have : t.answer (.admitHandle key now)
          = some ⟨key, now, (t.admitHandle key now).2.1, (t.admitHandle key now).2.2⟩ := rfl
      rw [this]
      simp [responds, responded]
    refine .inr ⟨now, ?_, ?_, (List.pairwise_cons.mp ht).1⟩
    · rw [hlast, hopen]
      rfl
    · rw [hconf, htok, hanswer, responded]
      split
      · next hd =>
        have hge : 1 ≤ (t.openRequest now).globalTokens := by
          have := hpass hd
          simpa [passesGlobal, hrate] using this
        push_cast
        exact hrefill.spend hge
      · simpa using hrefill
  · have hq := step_quiet (t := t) hop
    rw [hop.answer]
    have htimes : times (op :: ops) = times ops := by simp [times, hop.now?]
    rw [htimes] at h
    unfold Governed
    rw [hq.globalLast, hq.globalTokens, hconf]
    exact h

/-- The responses given up to a time. -/
def respondsUntil (cutoff : R) (as : List (Answer K R)) : ℕ :=
  as.countP fun a => a.disposition = .respond ∧ a.now ≤ cutoff

/-- Answers are to the run's admissions, one each. -/
theorem map_now_answers (t : ClientTable K R) (ops : List (Op K R)) :
    (t.answers ops).map Answer.now = times ops := by
  induction ops generalizing t with
  | nil => rfl
  | cons op ops ih =>
    rcases op.admitHandle_or_other with ⟨key, now, rfl⟩ | hop
    · rw [answers, List.map_append, ih]
      rfl
    · rw [answers, hop.answer, List.map_append, ih]
      simp [times, hop.now?]

theorem times_sublist (op : Op K R) (ops : List (Op K R)) :
    (times ops).Sublist (times (op :: ops)) := by
  rw [times, times, List.filterMap_cons]
  split
  · exact List.Sublist.refl _
  · exact List.sublist_cons_self _ _

/-- Past the cutoff no answer counts. -/
theorem respondsUntil_late {key : K} {now cutoff : R} {ops : List (Op K R)}
    (ht : (now :: times ops).Pairwise (· ≤ ·)) (hcut : cutoff < now) :
    respondsUntil cutoff (t.answers (.admitHandle key now :: ops)) = 0 := by
  rw [respondsUntil, List.countP_eq_zero]
  intro a ha
  have hmem : a.now ∈ now :: times ops := by
    have hnow := List.mem_map_of_mem (f := Answer.now) ha
    rwa [map_now_answers] at hnow
  have hle : now ≤ a.now := by
    rcases List.mem_cons.mp hmem with he | hm
    · exact he.ge
    · exact (List.pairwise_cons.mp ht).1 _ hm
  simp [lt_of_lt_of_le hcut hle]

/-- Up to it, an answer counts and the rest follow. -/
theorem respondsUntil_cons {cutoff : R} {op : Op K R} {ops : List (Op K R)}
    (hin : ¬∃ key now, op = .admitHandle key now ∧ cutoff < now) :
    respondsUntil cutoff (t.answers (op :: ops)) =
      responds (t.answer op).toList + respondsUntil cutoff ((t.step op).answers ops) := by
  rw [answers, respondsUntil, List.countP_append, ← respondsUntil]
  congr 1
  refine List.countP_congr ?_
  intro a ha
  rcases op.admitHandle_or_other with ⟨key, now, rfl⟩ | hop
  · have hanow : a.now = now := by
      simp only [answer, Option.toList_some, List.mem_singleton] at ha
      rw [ha]
    have hle : now ≤ cutoff := not_lt.mp fun hc => hin ⟨key, now, rfl, hc⟩
    simp [hanow, hle]
  · rw [hop.answer] at ha
    simp at ha

/-- **All responses up to a time, by the global bucket.** -/
theorem Governed.run (hs : Settled t n l) {ops : List (Op K R)} {spent : ℕ}
    (h : Governed t first spent (times ops)) (ht : (times ops).Pairwise (· ≤ ·))
    (hrate : 0 < t.config.globalRateHz) (hburst : 0 ≤ t.config.globalBurst) {cutoff : R}
    (hbefore : ∀ last, t.globalLast = some last → last ≤ cutoff) (hfirst : first ≤ cutoff) :
    ((spent + respondsUntil cutoff (t.answers ops) : ℕ) : R)
      ≤ t.config.globalBurst + t.config.globalRateHz * (cutoff - first) := by
  have hnow : (spent : R) ≤ t.config.globalBurst + t.config.globalRateHz * (cutoff - first) := by
    rcases h with ⟨-, -, rfl, -⟩ | ⟨last, hsome, hwithin, -⟩
    · have := mul_nonneg hrate.le (sub_nonneg.mpr hfirst)
      push_cast
      linarith
    · exact hwithin.spent_le hrate.le (hbefore last hsome)
  induction ops generalizing t l spent with
  | nil => simpa [answers, respondsUntil] using hnow
  | cons op ops ih =>
    obtain ⟨l', h'⟩ := hs.step op
    obtain ⟨hconf, -⟩ := config_step hs op
    have hnext := h.step hs ht hrate hburst
    by_cases hlate : ∃ key now, op = .admitHandle key now ∧ cutoff < now
    · -- past the cutoff: this answer and all later ones are not counted
      obtain ⟨key, now, rfl, hcut⟩ := hlate
      change (now :: times ops).Pairwise _ at ht
      rw [respondsUntil_late ht hcut, Nat.add_zero]
      exact hnow
    · have hcount : respondsUntil cutoff (t.answers (op :: ops)) =
          responds (t.answer op).toList + respondsUntil cutoff ((t.step op).answers ops) :=
        respondsUntil_cons hlate
      have hlast : ∀ last, (t.step op).globalLast = some last → last ≤ cutoff := by
        intro last hlast
        rcases op.admitHandle_or_other with ⟨key, now, rfl⟩ | hop
        · obtain ⟨-, hl, -⟩ := global_admitHandle hs key now
          rw [hl, openRequest] at hlast
          simp only [hrate, if_true, refillGlobal, Option.some.injEq] at hlast
          rw [← hlast]
          exact not_lt.mp fun hc => hlate ⟨key, now, rfl, hc⟩
        · rw [(step_quiet (t := t) hop).globalLast] at hlast
          exact hbefore last hlast
      rw [hcount, ← Nat.add_assoc, ← hconf]
      refine ih h' hnext (ht.sublist (times_sublist op ops)) (by rw [hconf]; exact hrate)
        (by rw [hconf]; exact hburst) hlast ?_
      rcases hnext with ⟨-, -, hz, -⟩ | ⟨last, hsome, hwithin, -⟩
      · rw [hz, hconf]
        have := mul_nonneg hrate.le (sub_nonneg.mpr hfirst)
        push_cast
        linarith
      · refine hwithin.spent_le ?_ (hlast last hsome)
        rw [hconf]
        exact hrate.le

/-- The responses one client got. -/
def respondsTo (key : K) (as : List (Answer K R)) : ℕ :=
  as.countP fun a => a.key = key ∧ a.disposition = .respond

theorem respondsTo_append (as bs : List (Answer K R)) :
    respondsTo key (as ++ bs) = respondsTo key as + respondsTo key bs := by
  simp [respondsTo]

theorem chargedRecord_congr (h : t'.config = t.config) (h' : t'.refillPerS = t.refillPerS)
    (r : ClientRecord R) (now : R) : t'.chargedRecord r now = t.chargedRecord r now := by
  rw [chargedRecord, h, h', chargedRecord]

/-- What admits nobody leaves a client its slot and its limits. -/
theorem core_quiet {op : Op K R} {c : K × ClientRecord R × ℕ} (hc : t.core s = some c)
    (hop : op.Other) :
    ∃ c', (t.step op).core s = some c' ∧ c'.1 = c.1 ∧ limits c'.2.1 = limits c.2.1 := by
  have hq := step_quiet (t := t) hop
  have hl := hq.limits s
  have hnm := hq.names s
  rw [hc] at hl hnm
  cases hc' : (t.step op).core s with
  | none => simp [hc'] at hnm
  | some c' =>
    rw [hc'] at hl hnm
    simp only [Option.map_some, Option.some.injEq, Prod.mk.injEq] at hl hnm
    exact ⟨c', rfl, hnm.1, hl⟩

/-- **What an operation does to the limiter's view of a client that stays.** -/
theorem core_step (h : Settled t n l) {op : Op K R} {c : K × ClientRecord R × ℕ}
    (hc : t.core s = some c) (hkeep : t.allocated op ≠ some s) :
    (∃ now, op = .admitHandle c.1 now ∧
        (t.step op).core s = some (c.1, (t.chargedRecord c.2.1 now).1, c.2.2) ∧
        (t.admitHandle c.1 now).2.1 = (t.chargedRecord c.2.1 now).2) ∨
      ∃ c', (t.step op).core s = some c' ∧ c'.1 = c.1 ∧ limits c'.2.1 = limits c.2.1 ∧
        respondsTo c.1 (t.answer op).toList = 0 := by
  rcases op.admitHandle_or_other with ⟨key, now, rfl⟩ | hop
  · have hanswer : t.answer (.admitHandle key now)
        = some ⟨key, now, (t.admitHandle key now).2.1, (t.admitHandle key now).2.2⟩ := rfl
    cases hg : t.passesGlobal now with
    | false =>
      refine .inr ⟨c, ?_, rfl, rfl, ?_⟩
      · simp only [step, admitHandle_rejected key hg, core_dropGlobal, core_openRequest, hc]
      · have hd := (global_admitHandle h key now).2.2
        rw [hg] at hd
        rw [hanswer]
        simpa [respondsTo] using fun _ he => absurd (hd he) (by simp)
    | true =>
      obtain ⟨t', i, l', hset, hlim, hfound, hsame, hadm, hslot⟩ := h.admitHandle key hg
      obtain ⟨d, hd⟩ := hset.exists_core hfound.mem
      have hopen := openRequest_sameShape t now
      have halloc := allocated_admit h hg hslot hfound
      have hcore : (t.step (.admitHandle key now)).core s
          = if i = s then some (d.1, (t'.chargedRecord d.2.1 now).1, d.2.2) else t'.core s := by
        simp only [step, hadm]
        exact core_charge hd now s
      by_cases his : i = s
      · -- the client's own request: the slot was not handed on, so it is its own
        subst his
        have hown : keyOf t.slots i = some key ∧ i ∈ l := by
          by_contra hno
          rw [if_neg hno] at halloc
          exact hkeep halloc
        have hdc : d = c := by
          rcases hfound.core_cases with ⟨-, core⟩ | ⟨new, -⟩
          · rw [core, core_openRequest, hc] at hd
            exact (Option.some.inj hd).symm
          · exact absurd (by rw [hopen.keyOf]; exact hown.1) (new i hown.2)
        subst hdc
        have hkey : d.1 = key := by
          have := hown.1
          rw [keyOf_eq_core, hc] at this
          exact Option.some.inj this
        have hrec := chargedRecord_congr (hlim.config.trans hopen.config)
          (hlim.refillPerS.trans hopen.refillPerS) d.2.1 now
        refine .inl ⟨now, by rw [hkey], by rw [hcore, if_pos rfl, hrec], ?_⟩
        rw [hkey, hadm]
        simp only
        rw [disposition_charge hd, hrec]
      · have hcs : (t.step (.admitHandle key now)).core s = some c := by
          rw [hcore, if_neg his, hfound.core_of_ne (Ne.symm his), core_openRequest, hc]
        refine .inr ⟨c, hcs, rfl, rfl, ?_⟩
        have hki : keyOf (t.step (.admitHandle key now)).slots i = some key :=
          (hsame.keyOf i).trans hfound.key_eq
        have hne : key ≠ c.1 :=
          Settled.key_ne (hset.sameShape hsame) hfound.mem hki hcs his
        rw [hanswer]
        simp [respondsTo, hne]
  · obtain ⟨c', hc', hkey, hlimits⟩ := core_quiet hc hop
    exact .inr ⟨c', hc', hkey, hlimits, by rw [hop.answer]; rfl⟩

/-- A charge is one refill of the client's bucket and at most one payment. -/
theorem within_chargedRecord {r : ClientRecord R} {spent : ℕ}
    (h : Within (t.config.burst : R) t.refillPerS first (spent : R) r.tokens r.lastSeen)
    (hrate : 0 ≤ t.refillPerS) (hnow : r.lastSeen ≤ now) :
    Within (t.config.burst : R) t.refillPerS first
      ((spent + responded (t.chargedRecord r now).2 : ℕ) : R)
      (t.chargedRecord r now).1.tokens (t.chargedRecord r now).1.lastSeen := by
  have hrefill : Within (t.config.burst : R) t.refillPerS first (spent : R)
      (r.refill now t.refillPerS t.config.burst).tokens now :=
    h.refill (Nat.cast_nonneg _) hrate hnow
  rw [lastSeen_chargedRecord]
  unfold chargedRecord settle
  by_cases h1 : 1 ≤ (r.refill now t.refillPerS t.config.burst).tokens
  · simp only [if_pos h1, responded]
    push_cast
    exact hrefill.spend h1
  · simp only [if_neg h1]
    split <;> simpa [responded] using hrefill

/-- The bucket of the client in slot `s`, over a run through which the client stays. -/
theorem Within.stay (h : Settled t n l) {ops : List (Op K R)} {c : K × ClientRecord R × ℕ}
    {spent : ℕ} {tLast : R} (hc : t.core s = some c)
    (hw : Within (t.config.burst : R) t.refillPerS first (spent : R) c.2.1.tokens c.2.1.lastSeen)
    (hrate : 0 ≤ t.refillPerS) (hstay : ∀ p, p <+: ops → (t.run p).get c.1 ≠ none)
    (ht : (c.2.1.lastSeen :: times ops).Pairwise (· ≤ ·)) (hseen : c.2.1.lastSeen ≤ tLast)
    (hle : ∀ a ∈ t.answers ops, a.key = c.1 → a.now ≤ tLast) :
    ((spent + respondsTo c.1 (t.answers ops) : ℕ) : R)
      ≤ (t.config.burst : R) + t.refillPerS * (tLast - first) := by
  induction ops generalizing t l c spent with
  | nil => exact hw.spent_le hrate hseen
  | cons op ops ih =>
    obtain ⟨l', h'⟩ := h.step op
    obtain ⟨hconf, hrefill⟩ := config_step h op
    have hname : t.name s = some (c.1, c.2.2) := by rw [name, hc]; rfl
    have hkeep : t.allocated op ≠ some s := by
      intro ha
      rcases name_step h op hname with ⟨hno, -⟩ | ⟨-, hgone, -⟩
      · exact hno ha
      · exact hstay [op] (List.cons_prefix_cons.mpr ⟨rfl, List.nil_prefix⟩) hgone
    have hstay' : ∀ p, p <+: ops → ((t.step op).run p).get c.1 ≠ none := fun p hp =>
      hstay (op :: p) (List.cons_prefix_cons.mpr ⟨rfl, hp⟩)
    rw [answers, respondsTo_append, ← Nat.add_assoc]
    rcases core_step h hc hkeep with ⟨now, rfl, hc', hd⟩ | ⟨c', hc', hkey, hlim, hzero⟩
    · have hanswer : t.answer (.admitHandle c.1 now)
          = some ⟨c.1, now, (t.admitHandle c.1 now).2.1, (t.admitHandle c.1 now).2.2⟩ := rfl
      change (c.2.1.lastSeen :: now :: times ops).Pairwise _ at ht
      have hnow : now ≤ tLast := hle _ (by rw [answers, hanswer]; exact List.mem_cons_self) rfl
      have hcount : respondsTo c.1 (t.answer (.admitHandle c.1 now)).toList
          = responded (t.chargedRecord c.2.1 now).2 := by
        rw [hanswer, ← hd]
        simp [respondsTo, responded]
      have hw' := within_chargedRecord hw hrate ((List.pairwise_cons.mp ht).1 now (by simp))
      rw [← hconf, ← hrefill] at hw'
      rw [hcount, ← hconf, ← hrefill]
      refine ih (c := (c.1, (t.chargedRecord c.2.1 now).1, c.2.2)) h' hc' hw'
        (by rw [hrefill]; exact hrate) hstay' ?_ ?_
        fun a ha => hle a (by rw [answers]; exact List.mem_append_right _ ha)
      · rw [lastSeen_chargedRecord]
        exact (List.pairwise_cons.mp ht).2
      · rw [lastSeen_chargedRecord]
        exact hnow
    · have htok : c'.2.1.tokens = c.2.1.tokens := congrArg (fun p => p.2.1) hlim
      have hlast : c'.2.1.lastSeen = c.2.1.lastSeen := congrArg Prod.fst hlim
      rw [hzero, Nat.add_zero, ← hconf, ← hrefill, ← hkey]
      refine ih h' hc' ?_ (by rw [hrefill]; exact hrate) (by rw [hkey]; exact hstay') ?_
        (by rw [hlast]; exact hseen) fun a ha hak => hle a ?_ (by rw [hak, hkey])
      · rw [hconf, hrefill, htok, hlast]
        exact hw
      · rw [hlast]
        exact ht.sublist ((times_sublist op ops).cons_cons _)
      · rw [answers]
        exact List.mem_append_right _ ha

/-- A client that is not in the table is not in its index. -/
theorem Settled.index_get_of_get (h : Settled t n l) (hout : t.get key = none) :
    t.index.get key t.slots = none := by
  cases hi : t.index.get key t.slots with
  | none => rfl
  | some i =>
    have hsize := h.lt_size ((get_lookup h.toInv).mp hi).1
    simp [ClientTable.get, hi, hsize] at hout

/-- **One client's responses during one stay**, from the admission that opens it. -/
theorem responds_le_client (h : Settled t n l) {rest : List (Op K R)} {tLast : R}
    (hrate : 0 ≤ t.refillPerS) (hout : t.get key = none)
    (hstay : ∀ p, p <+: rest → ((t.step (.admitHandle key first)).run p).get key ≠ none)
    (ht : (first :: times rest).Pairwise (· ≤ ·))
    (hle : ∀ a ∈ t.answers (.admitHandle key first :: rest), a.key = key → a.now ≤ tLast) :
    (respondsTo key (t.answers (.admitHandle key first :: rest)) : R)
      ≤ (t.config.burst : R) + t.refillPerS * (tLast - first) := by
  have hin : (t.step (.admitHandle key first)).get key ≠ none := hstay [] List.nil_prefix
  have hanswer : t.answer (.admitHandle key first)
      = some ⟨key, first, (t.admitHandle key first).2.1, (t.admitHandle key first).2.2⟩ := rfl
  have hfirst : first ≤ tLast := hle _ (by rw [answers, hanswer]; exact List.mem_cons_self) rfl
  cases hg : t.passesGlobal first with
  | false =>
    exfalso
    refine hin ?_
    have hget := (rejected_sameShape key hg).index_get h key
    rw [h.index_get_of_get hout] at hget
    simp only [step]
    simp [ClientTable.get, hget]
  | true =>
    obtain ⟨t', i, l', hset, hlim, hfound, hsame, hadm, hslot⟩ := h.admitHandle key hg
    have hopen := openRequest_sameShape t first
    have hconf : t'.config = t.config := hlim.config.trans hopen.config
    have hrefill : t'.refillPerS = t.refillPerS := hlim.refillPerS.trans hopen.refillPerS
    have hfresh : ∃ g, t'.core i = some (key, ClientRecord.new first t.config.burst, g) := by
      rcases hfound.core_cases with ⟨⟨hil, own⟩, -⟩ | ⟨-, g, core⟩
      · rw [hopen.keyOf] at own
        have hi := (get_lookup h.toInv).mpr ⟨hil, own⟩
        rw [h.index_get_of_get hout] at hi
        cases hi
      · exact ⟨g, by rw [core, if_pos rfl, hopen.config]⟩
    obtain ⟨g, hc⟩ := hfresh
    -- the bucket starts full at the first admission, which is already charged to it
    have hstart : Within (t'.config.burst : R) t'.refillPerS first ((0 : ℕ) : R)
        (ClientRecord.new first t.config.burst : ClientRecord R).tokens first := by
      rw [Nat.cast_zero, hconf]
      exact Within.start (Nat.cast_nonneg _)
    have hcharged := within_chargedRecord hstart (by rw [hrefill]; exact hrate) (le_refl first)
    rw [chargedRecord_congr hconf hrefill, hconf, hrefill] at hcharged
    have hcore : (t.step (.admitHandle key first)).core i = some (key,
        (t.chargedRecord (ClientRecord.new first t.config.burst) first).1, g) := by
      simp only [step, hadm]
      rw [core_charge hc, if_pos rfl, chargedRecord_congr hconf hrefill]
    have hd : (t.admitHandle key first).2.1
        = (t.chargedRecord (ClientRecord.new first t.config.burst) first).2 := by
      rw [hadm]
      simp only
      rw [disposition_charge hc, chargedRecord_congr hconf hrefill]
    have hcount : respondsTo key (t.answer (.admitHandle key first)).toList
        = responded (t.chargedRecord (ClientRecord.new first t.config.burst) first).2 := by
      rw [hanswer, ← hd]
      simp [respondsTo, responded]
    obtain ⟨hconf', hrefill'⟩ := config_step h (.admitHandle key first)
    rw [answers, respondsTo_append, hcount, ← hconf', ← hrefill', ← Nat.zero_add (responded _)]
    have hset' : Settled (t.step (.admitHandle key first)) n l' := hset.sameShape hsame
    refine Within.stay hset' hcore ?_ (by rw [hrefill']; exact hrate) hstay ?_ ?_
      fun a ha => hle a (by rw [answers]; exact List.mem_append_right _ ha)
    · rw [hconf', hrefill']
      exact hcharged
    · rw [lastSeen_chargedRecord]
      exact ht
    · rw [lastSeen_chargedRecord]
      exact hfirst

/--
**The rate limiter bounds the output of any run with nondecreasing times.** All responses up to
a time stay within the global bucket; one client's responses during one stay in the table stay
within its own; Kiss-o'-Death answers are at most one drop in `period`; every request is a
response or a drop.
-/
theorem rate_limited {capacity : ℕ} {config : RateLimitConfig R} {hasher : K → UInt64}
    {t₀ : ClientTable K R} (hnew : new capacity config hasher = some t₀) (ops : List (Op K R))
    (htimes : (times ops).Pairwise (· ≤ ·)) :
    (0 < config.globalRateHz → 0 ≤ config.globalBurst →
      ∀ tFirst ∈ (times ops).head?, ∀ cutoff, tFirst ≤ cutoff →
        (respondsUntil cutoff (t₀.answers ops) : R)
          ≤ config.globalBurst + config.globalRateHz * (cutoff - tFirst)) ∧
    (∀ before key tFirst rest, before ++ .admitHandle key tFirst :: rest <+: ops →
      (t₀.run before).get key = none →
      (∀ p, p <+: rest → (((t₀.run before).step (.admitHandle key tFirst)).run p).get key ≠ none) →
      ∀ tLast, (∀ a ∈ (t₀.run before).answers (.admitHandle key tFirst :: rest),
          a.key = key → a.now ≤ tLast) →
        (respondsTo key ((t₀.run before).answers (.admitHandle key tFirst :: rest)) : R)
          ≤ (config.burst : R) + (2 : R) ^ (-config.intervalLog2) * (tLast - tFirst)) ∧
    (t₀.run ops).stats.kissOfDeath * 2 ^ min config.leakShift 16
      ≤ (t₀.run ops).stats.droppedRateLimit ∧
    (times ops).length = (t₀.run ops).stats.requests ∧
    (t₀.run ops).stats.requests
      = (t₀.run ops).stats.responses + (t₀.run ops).stats.droppedRateLimit := by
  obtain ⟨n, hn, hset⟩ := new_settled hnew
  obtain ⟨hconf, hrefill, htokens, hlast, hdrops⟩ := new_limits hnew
  have hstats := new_stats hnew
  refine ⟨?_, ?_, ?_, ?_⟩
  · intro hrate hburst tFirst hfirst cutoff hcut
    have hgov : Governed t₀ tFirst 0 (times ops) :=
      .inl ⟨hlast, by rw [htokens, hconf], rfl, fun s hs => by rw [hfirst] at hs; cases hs; rfl⟩
    have := hgov.run hset htimes (by rw [hconf]; exact hrate) (by rw [hconf]; exact hburst)
      (by simp [hlast]) hcut
    rwa [Nat.zero_add, hconf] at this
  · intro before key tFirst rest hpre hout hstay tLast hle
    obtain ⟨l, hl⟩ := hset.run before
    obtain ⟨hconf', hrefill'⟩ := config_run hset before
    obtain ⟨after, rfl⟩ := hpre
    have hpow : (0 : R) ≤ (2 : R) ^ (-config.intervalLog2) := zpow_nonneg (by norm_num) _
    have ht : (tFirst :: times rest).Pairwise (· ≤ ·) := by
      refine htimes.sublist ?_
      simp only [times, List.filterMap_append, List.append_assoc]
      refine List.Sublist.trans ?_ (List.sublist_append_right _ _)
      exact List.sublist_append_left (tFirst :: times rest) _
    have := responds_le_client hl (by rw [hrefill', hrefill]; exact hpow) hout hstay ht hle
    rwa [hconf', hconf, hrefill', hrefill] at this
  · have hleaks : Leaks t₀ := by
      have hpend : t₀.pendingDrops = 0 := by
        refine Finset.sum_eq_zero ?_
        intro i _
        rw [dropsAt, core_eq_none_iff.mpr (by rw [← hset.length]; exact Nat.zero_le i)]
        rfl
      unfold Leaks
      rw [hpend, hstats, hdrops]
      simp
    have hrun := leaks_run hset hleaks ops
    unfold Leaks RateLimitConfig.period at hrun
    rw [(config_run hset ops).1, hconf] at hrun
    omega
  · have hcount := counted_run hset (q := 0) (p := 0)
      ⟨by simp [hstats], by simp [hstats], by simp [hstats]⟩ ops
    refine ⟨?_, hcount.total⟩
    rw [hcount.requests, ← map_now_answers t₀ ops, List.length_map, Nat.zero_add]

/-- One client asking twice at once, of a table that allows one response. -/
theorem rate_limited_twice :
    ∃ t₀ : ClientTable ℕ ℚ, new 1 ⟨0, 1, 0, 1, 1⟩ (fun _ => 7) = some t₀ ∧
      (respondsUntil 0 (t₀.answers [.admitHandle 5 0, .admitHandle 5 0]) : ℚ)
        ≤ 1 + 1 * (0 - 0) := by
  have h (t₀ : ClientTable ℕ ℚ) (hnew : new 1 ⟨0, 1, 0, 1, 1⟩ (fun _ => 7) = some t₀) :=
    rate_limited hnew [.admitHandle 5 0, .admitHandle 5 0] (by decide)
  exact ⟨_, rfl, (h _ rfl).1 (by decide) (by decide) 0 rfl 0 (le_refl 0)⟩

end Buckets

end RustyTime.ClientTable
