import Mathlib.Data.Rat.Defs
import RustyTime.Properties.ClientTable

/-!
# The client table is a bounded map in least-recently-used order

`Tracks t n l ks` adds to the invariant that the live slots, in list order, hold the keys `ks`.
An admission past the global limiter is one use of its key (`Tracks.step`); nothing else changes
the order. `Ordered` says the same of the times the slots were last seen.

* `run_isLru` — after any run the table is the map with the `capacity` most recently
  admitted keys, and the evictions are the allocations it no longer holds
-/

namespace RustyTime.ClientTable

open Infra.Chain Infra.Recency Index

set_option linter.unusedSectionVars false

variable {K R : Type} [DecidableEq K] {t t' : ClientTable K R} {n : ℕ} [NeZero n] {l l' : List ℕ}
  {i : ℕ} {ks : List K} {key : K} {now : R}

/-! ## The order of the keys -/

/-- The live slots hold the keys `ks`. -/
structure Tracks (t : ClientTable K R) (n : ℕ) [NeZero n] (l : List ℕ) (ks : List K) : Prop
    extends Settled t n l where
  keys : l.map (keyOf t.slots) = ks.map some

theorem Tracks.sameShape (h : Tracks t n l ks) (hs : SameShape t t') : Tracks t' n l ks where
  toSettled := h.toSettled.sameShape hs
  keys := by
    rw [← h.keys]
    exact List.map_congr_left fun i _ => hs.keyOf i

theorem Tracks.mem_iff (h : Tracks t n l ks) : key ∈ ks ↔ ∃ i ∈ l, keyOf t.slots i = some key := by
  have hmap : some key ∈ ks.map some ↔ some key ∈ l.map (keyOf t.slots) := by rw [h.keys]
  simpa using hmap

theorem Tracks.nodup_keys (h : Tracks t n l ks) : ks.Nodup := by
  have hnd : (l.map (keyOf t.slots)).Nodup :=
    List.Nodup.map_on (fun i hi j hj he => h.index.inj i hi j hj he) h.chain.nodup
  rw [h.keys] at hnd
  exact hnd.of_map

theorem Tracks.length (h : Tracks t n l ks) : ks.length = l.length := by
  simpa using congrArg List.length h.keys.symm

/-- Keys in other slots survive the taking of slot `i`. -/
theorem keyOf_of_core {g : ℕ} {r : ClientRecord R}
    (hcore : ∀ j, t'.core j = if j = i then some (key, r, g) else t.core j) (j : ℕ) :
    keyOf t'.slots j = if j = i then some key else keyOf t.slots j := by
  rw [keyOf_eq_core, hcore, keyOf_eq_core]
  split <;> rfl

/-- **Finding a client's slot is one use of its key.** -/
theorem Found.promote [NatCast R] (hf : Found t l key now t' i l') (h : Tracks t n l ks) :
    l'.map (keyOf t'.slots) = (promote t.capacity ks key).map some := by
  have hcap : ks.length ≤ t.capacity := by
    have := h.bound
    rw [h.length, h.toSettled.length]
    exact this
  have hkeep : ∀ {m : List ℕ}, i ∉ m → ∀ {r : ClientRecord R} {g : ℕ},
      (∀ j, t'.core j = if j = i then some (key, r, g) else t.core j) →
      m.map (keyOf t'.slots) = m.map (keyOf t.slots) := by
    intro m hm r g hcore
    refine List.map_congr_left ?_
    intro j hj
    rw [keyOf_of_core hcore, if_neg fun he => hm (by rw [← he]; exact hj)]
  cases hf with
  | known a b live own core stats =>
    subst live
    have hkeys := h.keys
    rw [List.map_append, List.map_cons, own] at hkeys
    obtain ⟨ka, kb, rfl, ha, hb⟩ := List.map_eq_append_iff.mp hkeys.symm
    obtain ⟨k, kb, rfl, hk, hkb⟩ := List.map_eq_cons_iff.mp hb
    cases hk
    have hka : key ∉ ka := by
      have := h.nodup_keys
      rw [List.nodup_append] at this
      exact fun hm => this.2.2 key hm key (by simp) rfl
    have hsame : keyOf t'.slots = keyOf t.slots := by
      funext j
      rw [keyOf_eq_core, core, ← keyOf_eq_core]
    rw [promote_of_mem hcap hka, hsame]
    simp [own, ha, hkb]
  | fresh new room slot core stats =>
    have hil : i ∉ l := fun hm => by
      have := h.toSettled.mem_iff.mp hm
      omega
    have hk : key ∉ ks := fun hm => by
      obtain ⟨j, hj, hkj⟩ := h.mem_iff.mp hm
      exact new j hj hkj
    rw [promote_of_room (by rw [h.length]; exact room) hk, List.map_cons, List.map_cons,
      keyOf_of_core core, if_pos rfl, hkeep hil core, h.keys]
  | reused a live new full core stats =>
    subst live
    have hia : i ∉ a := by
      have := h.chain.nodup
      rw [List.nodup_append] at this
      exact fun hm => this.2.2 i hm i (by simp) rfl
    have hk : key ∉ ks := fun hm => by
      obtain ⟨j, hj, hkj⟩ := h.mem_iff.mp hm
      exact new j hj hkj
    obtain ⟨ka, kx, rfl, ha, hx⟩ :=
      List.map_eq_append_iff.mp (List.map_append.symm.trans h.keys).symm
    obtain ⟨x, ky, rfl, hx, hy⟩ := List.map_eq_cons_iff.mp hx
    obtain rfl := List.map_eq_nil_iff.mp hy
    rw [promote_of_full (by rw [h.length]; exact full) hk, List.map_cons, List.map_cons,
      keyOf_of_core core, if_pos rfl, hkeep hia core, ha]

section Steps

variable [Zero R] [One R] [Add R] [Sub R] [Mul R] [NatCast R] [Max R] [Min R]
  [LT R] [LE R] [DecidableLT R] [DecidableLE R]

theorem Tracks.admitHandle (h : Tracks t n l ks) (hg : t.passesGlobal now = true) :
    ∃ l', Tracks (t.admitHandle key now).1 n l' (promote t.capacity ks key) := by
  obtain ⟨t', i, l', hset, -, hfound, hsame, -, -⟩ := h.toSettled.admitHandle key hg
  have hopen := h.sameShape (openRequest_sameShape t now)
  have hkeys := hfound.promote hopen
  rw [(openRequest_sameShape t now).capacity] at hkeys
  exact ⟨l', Tracks.sameShape ⟨hset, hkeys⟩ hsame⟩

theorem capacity_step (h : Settled t n l) (op : Op K R) : (t.step op).capacity = t.capacity := by
  rcases op.admitHandle_or_other with ⟨key, now, rfl⟩ | hop
  · cases hg : t.passesGlobal now with
    | false => exact (rejected_sameShape key hg).capacity
    | true =>
      obtain ⟨t', i, l', -, hlim, -, hsame, -, -⟩ := h.admitHandle key hg
      exact (hsame.capacity.trans hlim.capacity).trans (openRequest_sameShape t now).capacity
  · exact (step_quiet hop).capacity

/-- **One operation is at most one use, of the key that passed the global limiter.** -/
theorem Tracks.step (h : Tracks t n l ks) (op : Op K R) :
    ∃ l', Tracks (t.step op) n l' ((passedKey t op).toList.foldl (promote t.capacity) ks) := by
  rcases op.admitHandle_or_other with ⟨key, now, rfl⟩ | hop
  · cases hg : t.passesGlobal now with
    | false =>
      simp only [passedKey, hg]
      exact ⟨l, h.sameShape (rejected_sameShape key hg)⟩
    | true =>
      simp only [passedKey, hg]
      exact h.admitHandle hg
  · rw [hop.passedKey]
    exact ⟨l, h.sameShape (step_quiet hop).toSameShape⟩

theorem capacity_run (h : Settled t n l) (ops : List (Op K R)) :
    (t.run ops).capacity = t.capacity := by
  induction ops generalizing t l with
  | nil => rfl
  | cons op ops ih =>
    obtain ⟨l', h'⟩ := h.step op
    exact (ih h').trans (capacity_step h op)

/-- **The table holds the first `capacity` keys of the recency order.** -/
theorem Tracks.run {past : List K} (h : Tracks t n l ((recent past).take t.capacity))
    (ops : List (Op K R)) :
    ∃ l', Tracks (t.run ops) n l' ((recent (past ++ passedKeys t ops)).take t.capacity) := by
  induction ops generalizing t l past with
  | nil =>
    rw [passedKeys, List.append_nil]
    exact ⟨l, h⟩
  | cons op ops ih =>
    obtain ⟨l₁, h₁⟩ := h.step op
    have hcap := capacity_step h.toSettled op
    have hrecent : (passedKey t op).toList.foldl (promote t.capacity)
        ((recent past).take t.capacity)
        = (recent (past ++ (passedKey t op).toList)).take t.capacity := by
      cases passedKey t op with
      | none => simp
      | some key => exact promote_recent t.capacity past key
    rw [hrecent, ← hcap] at h₁
    obtain ⟨l₂, h₂⟩ := ih h₁
    rw [hcap, List.append_assoc] at h₂
    exact ⟨l₂, h₂⟩

/-! ## Evictions -/

/-- The slots handed to new clients are the live ones and the evicted ones. -/
theorem evicted_step (h : Settled t n l) (op : Op K R) :
    ∃ l', Settled (t.step op) n l' ∧
      (t.step op).stats.evicted + l'.length
        = t.stats.evicted + l.length + (allocated t op).toList.length := by
  rcases op.admitHandle_or_other with ⟨key, now, rfl⟩ | hop
  · cases hg : t.passesGlobal now with
    | false =>
      refine ⟨l, h.sameShape (rejected_sameShape key hg), ?_⟩
      simp only [step, allocated, hg, admitHandle_rejected key hg, dropGlobal]
      split <;> simp
    | true =>
      obtain ⟨t', i, l', hset, -, hfound, hsame, hadm, hslot⟩ := h.admitHandle key hg
      refine ⟨l', hset.sameShape hsame, ?_⟩
      obtain ⟨c, hc⟩ := hset.exists_core hfound.mem
      have hcharge : (t.step (.admitHandle key now)).stats.evicted = t'.stats.evicted := by
        simp only [step, hadm, stats_charge hc]
        exact evicted_tally _ _
      have hkeys : ∀ j, keyOf (t.openRequest now).slots j = keyOf t.slots j :=
        (openRequest_sameShape t now).keyOf
      rw [hcharge, allocated_admit h hg hslot hfound]
      cases hfound with
      | known a b live own core stats =>
        rw [hkeys] at own
        simp [own, stats, live]
        omega
      | fresh new room slot core stats =>
        rw [if_neg fun hi => new i hi.2 (by rw [hkeys]; exact hi.1)]
        simp [stats]
        omega
      | reused a live new full core stats =>
        rw [if_neg fun hi => new i hi.2 (by rw [hkeys]; exact hi.1)]
        simp [stats, live]
        omega
  · have hq := step_quiet (t := t) hop
    exact ⟨l, h.sameShape hq.toSameShape, by rw [hq.evicted, hop.allocated]; rfl⟩

theorem evicted_run (h : Settled t n l) (ops : List (Op K R)) :
    ∃ l', Settled (t.run ops) n l' ∧
      (t.run ops).stats.evicted + l'.length
        = t.stats.evicted + l.length + (allocations t ops).length := by
  induction ops generalizing t l with
  | nil => exact ⟨l, h, by simp [allocations, run]⟩
  | cons op ops ih =>
    obtain ⟨l₁, h₁, he₁⟩ := evicted_step h op
    obtain ⟨l₂, h₂, he₂⟩ := ih h₁
    refine ⟨l₂, h₂, ?_⟩
    rw [allocations, List.length_append]
    change ((t.step op).run ops).stats.evicted + _ = _
    omega

/-! ## The order of the times -/

/-- When the client in a slot was last seen. -/
def seen (t : ClientTable K R) (i : ℕ) : Option R := (t.core i).map fun c => c.2.1.lastSeen

/-- List order is the order of the times, and all of them are before the times to come. -/
structure Ordered (t : ClientTable K R) (l : List ℕ) (later : List R) : Prop where
  sorted : l.Pairwise fun i j => ∀ a ∈ t.seen i, ∀ b ∈ t.seen j, b ≤ a
  past : ∀ i ∈ l, ∀ a ∈ t.seen i, ∀ now ∈ later, a ≤ now

theorem seen_charge {c : K × ClientRecord R × ℕ} (hc : t.core i = some c) (now : R) (j : ℕ) :
    (t.charge i now).1.seen j = if i = j then some now else t.seen j := by
  rw [seen, core_charge hc]
  split
  · rw [Option.map_some, lastSeen_chargedRecord]
  · rfl

/-- Moving a slot to the front as it is seen keeps the order. -/
theorem Ordered.front {later : List R} (h : Ordered t l (now :: later))
    (hlater : ∀ s ∈ later, now ≤ s) (hi : t'.seen i = some now) (hsub : l'.Sublist l)
    (hrest : ∀ j ∈ l', t'.seen j = t.seen j) : Ordered t' (i :: l') later where
  sorted := by
    refine List.pairwise_cons.mpr ⟨?_, ?_⟩
    · intro j hj a ha b hb
      rw [hi] at ha
      cases ha
      rw [hrest j hj] at hb
      exact h.past j (hsub.subset hj) b hb now (by simp)
    · refine (h.sorted.sublist hsub).imp_of_mem fun {a b} ha hb hab => ?_
      rw [hrest a ha, hrest b hb]
      exact hab
  past := by
    intro j hj a ha s hs
    rcases List.mem_cons.mp hj with rfl | hj
    · rw [hi] at ha
      cases ha
      exact hlater s hs
    · rw [hrest j hj] at ha
      exact h.past j (hsub.subset hj) a ha s (by simp [hs])

theorem Ordered.congr {later later' : List R} (h : Ordered t l later) (ht : t'.seen = t.seen)
    (hl : later' ⊆ later) : Ordered t' l later' where
  sorted := by rw [ht]; exact h.sorted
  past := fun i hi a ha s hs => h.past i hi a (by rw [← ht]; exact ha) s (hl hs)

theorem seen_of_core (h : t'.core = t.core) : t'.seen = t.seen := by
  funext i
  rw [seen, h, seen]

/-- **An operation keeps list order and time order the same.** -/
theorem Ordered.step {op : Op K R} {ops : List (Op K R)} (h : Ordered t l (times (op :: ops)))
    (hs : Settled t n l) (ht : (times (op :: ops)).Pairwise (· ≤ ·)) :
    ∃ l', Settled (t.step op) n l' ∧ Ordered (t.step op) l' (times ops) := by
  rcases op.admitHandle_or_other with ⟨key, now, rfl⟩ | hop
  · change Ordered t l (now :: times ops) at h
    change (now :: times ops).Pairwise _ at ht
    have hlater := (List.pairwise_cons.mp ht).1
    cases hg : t.passesGlobal now with
    | false =>
      refine ⟨l, hs.sameShape (rejected_sameShape key hg), h.congr (seen_of_core ?_) (by simp)⟩
      simp only [ClientTable.step, admitHandle_rejected key hg, core_dropGlobal, core_openRequest]
    | true =>
      obtain ⟨t', i, l', hset, -, hfound, hsame, hadm, -⟩ := hs.admitHandle key hg
      refine ⟨l', hset.sameShape hsame, ?_⟩
      obtain ⟨c, hc⟩ := hset.exists_core hfound.mem
      have hseen : ∀ j, (t.step (.admitHandle key now)).seen j
          = if i = j then some now else t'.seen j := by
        intro j
        simp only [ClientTable.step, hadm]
        exact seen_charge hc now j
      have hi : (t.step (.admitHandle key now)).seen i = some now := by rw [hseen, if_pos rfl]
      have hnd := hset.chain.nodup
      cases hfound with
      | known a b live own core stats =>
        subst live
        have hsub : (a ++ b).Sublist (a ++ i :: b) :=
          (List.Sublist.refl a).append (List.sublist_cons_self i b)
        refine h.front hlater hi hsub ?_
        intro j hj
        have hij : i ≠ j := fun he => (List.nodup_cons.mp hnd).1 (he ▸ hj)
        rw [hseen, if_neg hij, seen_of_core core, seen_of_core (core_openRequest t now)]
      | fresh new room slot core stats =>
        refine h.front hlater hi (List.Sublist.refl l) ?_
        intro j hj
        have hij : i ≠ j := fun he => (List.nodup_cons.mp hnd).1 (he ▸ hj)
        rw [hseen, if_neg hij, seen, core, if_neg hij.symm, core_openRequest, seen]
      | reused a live new full core stats =>
        subst live
        refine h.front hlater hi (List.sublist_append_left a [i]) ?_
        intro j hj
        have hij : i ≠ j := fun he => (List.nodup_cons.mp hnd).1 (he ▸ hj)
        rw [hseen, if_neg hij, seen, core, if_neg hij.symm, core_openRequest, seen]
  · have hq := step_quiet (t := t) hop
    refine ⟨l, hs.sameShape hq.toSameShape, h.congr ?_ (by simp [times, hop.now?])⟩
    funext i
    have := congrArg (Option.map Prod.fst) (hq.limits i)
    rw [Option.map_map, Option.map_map] at this
    exact this

theorem Ordered.run {ops : List (Op K R)} (h : Ordered t l (times ops)) (hs : Settled t n l)
    (ht : (times ops).Pairwise (· ≤ ·)) :
    ∃ l', Settled (t.run ops) n l' ∧ Ordered (t.run ops) l' [] := by
  induction ops generalizing t l with
  | nil => exact ⟨l, hs, h⟩
  | cons op ops ih =>
    obtain ⟨l₁, hs₁, h₁⟩ := h.step hs ht
    have ht' : (times ops).Pairwise (· ≤ ·) := by
      refine ht.sublist ?_
      rw [times, times, List.filterMap_cons]
      split
      · exact List.Sublist.refl _
      · exact List.sublist_cons_self _ _
    exact ih h₁ hs₁ ht'

end Steps

/-! ## The report -/

/-- What the report shows of a slot. -/
def row (t : ClientTable K R) (i : ℕ) : Option (K × ClientRecord R) :=
  (t.core i).map fun c => (c.1, c.2.1)

/-- The report walks the list. -/
theorem mostRecentFrom_eq {a b : List ℕ} (h : Threaded linkNil t.links (a ++ b))
    (hl : ∀ i ∈ a ++ b, i < t.slots.size) (limit : ℕ) :
    t.mostRecentFrom limit (b.headD linkNil) = (b.take limit).filterMap t.row := by
  induction limit generalizing a b with
  | zero => simp [mostRecentFrom]
  | succ limit ih =>
    cases b with
    | nil => simp [mostRecentFrom]
    | cons i b =>
      have hi : i < t.slots.size := hl i (by simp)
      have hne : i ≠ linkNil := fun he => h.fresh (by simp [he])
      have hnext : t.slots[i].next = b.headD linkNil := by
        have := h.next_eq a i b rfl
        simpa [links, hi] using this
      have hrow : t.row i = some (t.slots[i].key, t.slots[i].record) := by simp [row, core, hi]
      have hrest := ih (a := a ++ [i]) (b := b) (by simpa using h) (by simpa using hl)
      rw [List.headD_cons, mostRecentFrom, if_neg hne, Array.getElem?_eq_getElem hi,
        List.take_succ_cons, List.filterMap_cons, hrow]
      simp only
      rw [hnext, hrest]

theorem Settled.mostRecent (h : Settled t n l) (limit : ℕ) :
    t.mostRecent limit = (l.take limit).filterMap t.row := by
  have hhead : t.mru = l.headD linkNil := h.chain.head_eq
  rw [ClientTable.mostRecent, hhead]
  exact mostRecentFrom_eq (a := []) h.chain (fun i hi => h.lt_size hi) limit

/-! ## The whole run -/

theorem get_eq_row (t : ClientTable K R) (key : K) :
    t.get key = (t.index.get key t.slots).bind fun i => (t.row i).map Prod.snd := by
  unfold ClientTable.get
  cases t.index.get key t.slots with
  | none => rfl
  | some i => simp [row, core, Function.comp_def]

theorem Tracks.isLru [LE R] (h : Tracks t n l ks) (hord : Ordered t l []) : IsLru t ks := by
  have hget : ∀ key i, t.index.get key t.slots = some i ↔ keyOf t.slots i = some key := by
    intro key i
    rw [get_lookup h.toInv]
    refine ⟨And.right, fun hk => ⟨h.toSettled.mem_iff.mpr ?_, hk⟩⟩
    rw [← core_isSome_iff]
    rw [keyOf_eq_core] at hk
    cases hc : t.core i with
    | none => simp [hc] at hk
    | some c => rfl
  have hrow : ∀ i key r, t.row i = some (key, r) → t.get key = some r := by
    intro i key r hr
    have hk : keyOf t.slots i = some key := by
      rw [keyOf_eq_core]
      have := congrArg (Option.map Prod.fst) hr
      rwa [row, Option.map_map] at this
    rw [get_eq_row, (hget key i).mpr hk]
    simp [hr]
  refine ⟨h.nodup_keys, ?_, ?_, ?_, ⟨l, h.chain, fun i => h.toSettled.mem_iff, h.keys⟩,
    fun i j hi hj => h.chain.next_prev (h.toSettled.mem_iff.mpr hi) (h.toSettled.mem_iff.mpr hj),
    hget, ?_, ?_, ?_⟩
  · intro key
    rw [h.mem_iff]
    constructor
    · intro hs
      cases hg : t.index.get key t.slots with
      | none => simp [ClientTable.get, hg] at hs
      | some i => exact ⟨i, (get_lookup h.toInv).mp hg⟩
    · rintro ⟨i, hi, hk⟩
      obtain ⟨c, hc⟩ := h.exists_core hi
      rw [get_eq_row, (hget key i).mpr hk]
      simp [row, hc]
  · rw [h.length]
    exact h.index.len
  · have := h.bound
    have hlen : t.len = l.length := h.index.len
    rw [hlen, h.toSettled.length]
    exact this
  · intro limit
    have hkeys : ∀ m : List ℕ, (m.filterMap t.row).map Prod.fst = m.filterMap (keyOf t.slots) := by
      intro m
      rw [List.map_filterMap]
      refine List.filterMap_congr ?_
      intro i _
      rw [keyOf_eq_core, row, Option.map_map]
      rfl
    have hmap : (l.take limit).map (keyOf t.slots) = (ks.take limit).map some := by
      rw [List.map_take, h.keys, List.map_take]
    have := congrArg (List.filterMap id) hmap
    rw [List.filterMap_map, List.filterMap_map] at this
    rw [h.toSettled.mostRecent, hkeys]
    simpa [Function.comp_def] using this
  · intro limit r hr
    rw [h.toSettled.mostRecent] at hr
    obtain ⟨i, -, hi⟩ := List.mem_filterMap.mp hr
    exact hrow i r.1 r.2 hi
  · intro limit
    rw [h.toSettled.mostRecent]
    have hseen : ∀ i r, t.row i = some r → t.seen i = some r.2.lastSeen := by
      intro i r hr
      rw [seen]
      cases hc : t.core i with
      | none => simp [row, hc] at hr
      | some c =>
        simp only [row, hc, Option.map_some, Option.some.injEq] at hr
        rw [← hr]
        rfl
    refine (hord.sorted.sublist (List.take_sublist limit l)).filterMap _ ?_
    intro i j hij a ha b hb
    exact hij _ (hseen i a ha) _ (hseen j b hb)

section Runs

variable [Zero R] [One R] [Add R] [Sub R] [Mul R] [NatCast R] [Max R] [Min R] [Pow R ℤ]
  [LT R] [LE R] [DecidableLT R] [DecidableLE R]

/--
**The client table is exactly a bounded map in least-recently-used order.** After any run with
nondecreasing times, for any hash function, the table is the map with the first `capacity` of
the distinct keys admitted past the global limiter, most recent first, and every slot
allocation is either live or counted as an eviction.
-/
theorem run_isLru {capacity : ℕ} {config : RateLimitConfig R} {hasher : K → UInt64}
    {t : ClientTable K R} (hnew : new capacity config hasher = some t) (hcap : 1 ≤ capacity)
    (ops : List (Op K R)) (htimes : (times ops).Pairwise (· ≤ ·)) :
    IsLru (t.run ops) ((recent (passedKeys t ops)).take capacity) ∧
      (t.run ops).capacity = capacity ∧
      (t.run ops).stats.evicted + (t.run ops).len = (allocations t ops).length := by
  obtain ⟨n, hn, hset⟩ := new_settled hnew
  have hcapacity : t.capacity = capacity := by
    rw [new_capacity hnew]
    omega
  have htracks : Tracks t n [] ((recent []).take t.capacity) := ⟨hset, by simp⟩
  obtain ⟨l, hl⟩ := htracks.run ops
  obtain ⟨l', hset', hord⟩ := Ordered.run (t := t) (l := []) ⟨by simp, by simp⟩ hset htimes
  obtain ⟨l'', hset'', hev⟩ := evicted_run hset ops
  obtain rfl := hl.chain.unique hset'.chain
  obtain rfl := hl.chain.unique hset''.chain
  have hlen : (t.run ops).len = l.length := hl.index.len
  rw [hcapacity] at hl
  refine ⟨by simpa using hl.isLru hord, (capacity_run hset ops).trans hcapacity, ?_⟩
  rw [hlen, hev, new_stats hnew]
  simp

/-- A run on a table of one slot whose keys all hash alike: the second client evicts the
first. -/
theorem run_isLru_one :
    ∃ t : ClientTable ℕ ℚ, new 1 ⟨0, 1, 0, 0, 0⟩ (fun _ => 7) = some t ∧
      IsLru (t.run [.admitHandle 5 0, .admitHandle 6 1])
        ((recent (passedKeys t [.admitHandle 5 0, .admitHandle 6 1])).take 1) :=
  ⟨_, rfl, (run_isLru rfl (by decide) [.admitHandle 5 0, .admitHandle 6 1] (by decide)).1⟩

end Runs

end RustyTime.ClientTable
