import RustyTime.Properties.Amplification
import RustyTime.Properties.ClientHandles
import RustyTime.Spec.Serving

/-!
# Interleaved replies and their exchanges

A client's record holds the receive field of the last reply built for it and the transmit time
last noted for it, written at two moments. They belong to one exchange as long as `paired` says
so. Handles of evicted clients change neither.

* `Serving.Inv` — the invariant, `build_inv`, `note_inv` — one step each
* `run_pairs` — every run
-/

namespace RustyTime

open ClientTable Index

set_option linter.unusedSectionVars false

/-! ## The interleaved mode's fields -/

namespace ClientTable

variable {K R : Type} [DecidableEq K] {t : ClientTable K R} {n : ℕ} [NeZero n] {l : List ℕ}
  {key : K}

/-- What the interleaved mode reads of a record. -/
def marks (r : ClientRecord R) : NtpTimestamp × NtpTimestamp := (r.lastReceiveSent, r.lastTransmit)

/-- What is held for a key is what its slot holds. -/
theorem get_eq_some_iff (h : Settled t n l) {r : ClientRecord R} :
    t.get key = some r ↔ ∃ s g, t.core s = some (key, r, g) := by
  have hslot : ∀ s, t.index.get key t.slots = some s ↔ keyOf t.slots s = some key := by
    intro s
    rw [get_lookup h.toInv, h.mem_iff]
    constructor
    · exact fun hs => hs.2
    · intro hs
      refine ⟨?_, hs⟩
      rw [← core_isSome_iff]
      rw [keyOf_eq_core] at hs
      obtain ⟨c, hc, -⟩ := Option.map_eq_some_iff.mp hs
      rw [hc]
      rfl
  constructor
  · intro hget
    unfold ClientTable.get at hget
    split at hget
    · cases hget
    · next s hs =>
      obtain ⟨slot, hat, rfl⟩ := Option.map_eq_some_iff.mp hget
      have hkey := (hslot s).mp hs
      have hcore : t.core s = some (slot.key, slot.record, slot.generation) := by
        rw [core, hat]
        rfl
      rw [keyOf_eq_core, hcore] at hkey
      obtain rfl := Option.some.inj hkey
      exact ⟨s, slot.generation, hcore⟩
  · rintro ⟨s, g, hcore⟩
    have hs : t.index.get key t.slots = some s := by
      rw [hslot, keyOf_eq_core, hcore]
      rfl
    obtain ⟨slot, hat, heq⟩ := Option.map_eq_some_iff.mp hcore
    unfold ClientTable.get
    rw [hs]
    dsimp only
    rw [hat]
    cases heq
    rfl

section Admission

variable [Zero R] [One R] [Add R] [Sub R] [Mul R] [NatCast R] [Max R] [Min R]
  [LT R] [LE R] [DecidableLT R] [DecidableLE R] {now : R}

theorem marks_chargedRecord (t : ClientTable K R) (r : ClientRecord R) (now : R) :
    marks (t.chargedRecord r now).1 = marks r := by
  unfold chargedRecord settle
  split
  · rfl
  · split <;> rfl

/-- An admission leaves the marks of every client alone, but for a new one's, which are unset. -/
theorem marks_admitHandle (h : Settled t n l) (key : K) (now : R) {k : K} {r' : ClientRecord R}
    (hget : (t.admitHandle key now).1.get k = some r') :
    (∃ r, t.get k = some r ∧ marks r' = marks r) ∨ r'.lastReceiveSent = .zero := by
  have hheld : ∀ {s k r g}, t.core s = some (k, r, g) →
      (∃ r₀, t.get k = some r₀ ∧ marks r = marks r₀) ∨ r.lastReceiveSent = .zero :=
    fun hc => .inl ⟨_, (get_eq_some_iff h).mpr ⟨_, _, hc⟩, rfl⟩
  cases hg : t.passesGlobal now with
  | false =>
    obtain ⟨s, g, hc⟩ := (get_eq_some_iff (h.sameShape (rejected_sameShape key hg))).mp hget
    rw [admitHandle_rejected key hg, core_dropGlobal, core_openRequest] at hc
    exact hheld hc
  | true =>
    obtain ⟨t', i, l', hset, -, hfound, hsame, hadm, -⟩ := h.admitHandle key hg
    obtain ⟨s, g, hc⟩ := (get_eq_some_iff (hset.sameShape hsame)).mp hget
    -- the slots before the charge: the old ones, and perhaps a new client's
    have hslots : ∀ {s k r g}, t'.core s = some (k, r, g) →
        (∃ r₀, t.get k = some r₀ ∧ marks r = marks r₀) ∨ r.lastReceiveSent = .zero := by
      intro s k r g hs
      rcases hfound.core_cases with ⟨-, core⟩ | ⟨-, g', core⟩
      · rw [core, core_openRequest] at hs
        exact hheld hs
      · rw [core, core_openRequest] at hs
        split at hs
        · cases hs
          exact .inr rfl
        · exact hheld hs
    obtain ⟨c, hci⟩ := hset.exists_core hfound.mem
    rw [hadm] at hc
    dsimp only at hc
    rw [core_charge hci] at hc
    split at hc
    · cases hc
      have hmarks := marks_chargedRecord t' c.2.1 now
      rcases hslots hci with ⟨r₀, hr₀, hsame₀⟩ | hzero
      · exact .inl ⟨r₀, hr₀, hmarks.trans hsame₀⟩
      · exact .inr ((congrArg Prod.fst hmarks).trans hzero)
    · exact hslots hc

end Admission

/-- Writing a record without touching its marks. -/
theorem marks_setRecord (h : Settled t n l) {i : ℕ} {f : ClientRecord R → ClientRecord R}
    (hf : ∀ r, marks (f r) = marks r) {r' : ClientRecord R}
    (hget : (t.setRecord i f).get key = some r') :
    ∃ r, t.get key = some r ∧ marks r' = marks r := by
  obtain ⟨s, g, hc⟩ := (get_eq_some_iff (h.sameShape (setRecord_sameShape t i f))).mp hget
  rw [core_setRecord] at hc
  split at hc
  · obtain ⟨c, hcs, heq⟩ := Option.map_eq_some_iff.mp hc
    cases heq
    exact ⟨c.2.1, (get_eq_some_iff h).mpr ⟨s, c.2.2, hcs⟩, hf c.2.1⟩
  · exact ⟨r', (get_eq_some_iff h).mpr ⟨s, g, hc⟩, rfl⟩

/-- Looking a mode up touches no marks. -/
theorem marks_responseModeAt (h : Settled t n l) (handle : ClientHandle) (origin : NtpTimestamp)
    {r' : ClientRecord R} (hget : (t.responseModeAt handle origin).1.get key = some r') :
    ∃ r, t.get key = some r ∧ marks r' = marks r := by
  have hself : t.get key = some r' → ∃ r, t.get key = some r ∧ marks r' = marks r :=
    fun hr => ⟨r', hr, rfl⟩
  unfold responseModeAt at hget
  split at hget
  · exact hself hget
  · split at hget
    · exact hself hget
    · next i _ _ slot _ =>
      let f : ClientRecord R → ClientRecord R := fun r =>
        { r with interleavedNow := origin == slot.record.lastReceiveSent && !origin.isZero }
      have hmarked : (t.setRecord i f).get key = some r' →
          ∃ r, t.get key = some r ∧ marks r' = marks r :=
        marks_setRecord h (f := f) fun _ => rfl
      dsimp only at hget
      split at hget
      · exact hself hget
      · split at hget
        · exact hmarked hget
        · exact hmarked hget

end ClientTable

namespace Serving

variable {K R : Type} [DecidableEq K] [Field R] [LinearOrder R] [FloorRing R]
  {s : Serving K R} {t : ClientTable K R} {n : ℕ} [NeZero n] {l : List ℕ}

/-! ## The invariant -/

/-- A waiting reply's handle names its client's slot, or a slot that was handed on since. -/
def PendingOk (t : ClientTable K R) (p : Pending K) : Prop :=
  p.handle = .invalid ∨
    p.handle.generation < 4294967296 ∧ ∃ key,
      t.name p.handle.slot = some (key, (p.handle.generation + p.handed) % 4294967296) ∧
        (p.handed = 0 → key = p.key)

/-- What is paired for a client is its last noted reply. -/
def Held (t : ClientTable K R) (noted : List (Noted K)) (paired : K → Bool) : Prop :=
  ∀ key r, t.get key = some r → r.lastReceiveSent ≠ .zero → paired key = true →
    (noted.find? fun e => e.key = key) = some ⟨key, r.lastReceiveSent, r.lastTransmit⟩

/-- **What holds of a server at work.** -/
structure Inv (s : Serving K R) : Prop where
  settled : ∃ n, ∃ _ : NeZero n, ∃ l, Settled s.guard.clients n l
  generations : ∀ i key g, s.guard.clients.name i = some (key, g) → g < 4294967296
  pending : ∀ p ∈ s.pending, PendingOk s.guard.clients p
  held : Held s.guard.clients s.noted s.paired

/-- A handle whose slot and generation are a client's is that client's. -/
theorem owns_of_name (h : Settled t n l) {i g : ℕ} {key : K} (hname : t.name i = some (key, g)) :
    Owns t ⟨i, g⟩ key := by
  refine h.owns ?_ ?_
  · rw [name_keyOf, hname]
    rfl
  · rw [name_generation, hname]
    rfl

/-- **A handle that still resolves is its own client's**, where its slot was not handed on `2 ^ 32`
times. -/
theorem PendingOk.owns (h : Settled t n l) {p : Pending K} (hp : PendingOk t p)
    (hfew : p.handed < 4294967296) {i : ℕ} (hr : t.resolve p.handle = some i) :
    Owns t p.handle p.key := by
  rcases hp with hinvalid | ⟨hlt, key, hname, hkey⟩
  · rw [hinvalid, resolve_invalid h.toInv] at hr
    cases hr
  · have hgen := name_generation (t := t) (s := p.handle.slot)
    rw [hname] at hgen
    by_cases hsame : (p.handle.generation + p.handed) % 4294967296 = p.handle.generation
    · have hzero : p.handed = 0 := by omega
      rw [hsame, hkey hzero] at hname
      exact owns_of_name h hname
    · rw [resolve_eq_none (g := p.handle.generation) hgen hsame] at hr
      cases hr

theorem PendingOk.sameShape {t' : ClientTable K R} {p : Pending K} (hp : PendingOk t p)
    (hs : SameShape t t') : PendingOk t' p := by
  unfold PendingOk
  rw [show t'.name p.handle.slot = t.name p.handle.slot from hs.names _]
  exact hp

/-! ## A note -/

theorem name_noteTransmitAt (t : ClientTable K R) (handle : ClientHandle)
    (transmit : NtpTimestamp) (i : ℕ) : (t.noteTransmitAt handle transmit).name i = t.name i :=
  (noteTransmitAt_quiet t handle transmit).names i

/-- **A note keeps the invariant**, whatever reply it is for. -/
theorem note_inv (h : Inv s) (transmit : NtpTimestamp) {p : Pending K}
    (hp : PendingOk s.guard.clients p) (hfew : p.handed < 4294967296) :
    Inv (note transmit s p) := by
  obtain ⟨n, hn, l, hset⟩ := h.settled
  have hquiet := noteTransmitAt_quiet s.guard.clients p.handle transmit
  have hset' := hset.sameShape hquiet.toSameShape
  have hgens : ∀ i key g,
      (s.guard.clients.noteTransmitAt p.handle transmit).name i = some (key, g) →
        g < 4294967296 := by
    intro i key g hi
    rw [name_noteTransmitAt] at hi
    exact h.generations i key g hi
  have hpending : ∀ q ∈ s.pending,
      PendingOk (s.guard.clients.noteTransmitAt p.handle transmit) q :=
    fun q hq => (h.pending q hq).sameShape hquiet.toSameShape
  unfold note
  dsimp only
  cases hr : s.guard.clients.resolve p.handle with
  | none =>
    refine ⟨⟨n, hn, l, hset'⟩, hgens, hpending, ?_⟩
    have hsame : s.guard.clients.noteTransmitAt p.handle transmit = s.guard.clients := by
      unfold noteTransmitAt
      rw [hr]
    show Held (s.guard.clients.noteTransmitAt p.handle transmit) s.noted s.paired
    rw [hsame]
    exact h.held
  | some i =>
    have howns := hp.owns hset hfew hr
    refine ⟨⟨n, hn, l, hset'⟩, hgens, hpending, ?_⟩
    intro key r hget hne hpaired
    change (s.guard.clients.noteTransmitAt p.handle transmit).get key = some r at hget
    rw [howns.noteTransmit, howns.frame] at hget
    dsimp only at hpaired ⊢
    by_cases hkey : key = p.key
    · -- the client's own reply
      subst hkey
      rw [if_pos rfl] at hget hpaired
      obtain ⟨r₀, hr₀, rfl⟩ := Option.map_eq_some_iff.mp hget
      rw [hr₀] at hpaired
      rw [Bool.and_eq_true, beq_iff_eq] at hpaired
      rw [hpaired.2]
      exact List.find?_cons_of_pos (by simp)
    · rw [if_neg hkey] at hget hpaired
      rw [← h.held key r hget hne hpaired]
      cases p.receive with
      | none => rfl
      | some receive => exact List.find?_cons_of_neg (by simpa using Ne.symm hkey)

/-- The notes of a whole batch. -/
theorem notes_inv (transmit : NtpTimestamp) (ps : List (Pending K)) (h : Inv s)
    (hps : ∀ p ∈ ps, PendingOk s.guard.clients p ∧ p.handed < 4294967296) :
    Inv (ps.foldl (note transmit) s) := by
  induction ps generalizing s with
  | nil => exact h
  | cons p ps ih =>
    obtain ⟨hp, hfew⟩ := hps p List.mem_cons_self
    refine ih (note_inv h transmit hp hfew) ?_
    intro q hq
    obtain ⟨hq', hfew'⟩ := hps q (List.mem_cons_of_mem _ hq)
    refine ⟨?_, hfew'⟩
    have hclients : (note transmit s p).guard.clients =
        s.guard.clients.noteTransmitAt p.handle transmit := by
      unfold note
      dsimp only
      split <;> rfl
    unfold PendingOk
    rw [hclients, name_noteTransmitAt]
    exact hq'

/-! ## A reply is built -/

/-- A request that does not reach the limiter leaves the table as good as it was. -/
theorem clients_unreached (aead : Aead) {d : Datagram K R} (h : d.reaches = none)
    (guard : ServerState K R) :
    let built := buildReplyIn aead d.request d.peer d.recvTs guard d.clock d.random
    SameShape guard.clients built.1.clients ∧ built.1.clients.get = guard.clients.get := by
  intro built
  rcases buildReplyIn_cases aead d.request d.peer d.recvTs guard d.clock d.random with
    hrefused | hunread | ⟨parsed, now, -, -, hreaches, -⟩
  · rw [show built = _ from hrefused]
    exact ⟨stats_sameShape _ _, rfl⟩
  · rw [show built = _ from hunread]
    exact ⟨.refl _, rfl⟩
  · rw [Datagram.reaches_iff.mpr hreaches] at h
    cases h

/-- The table after a request that is answered: looked up and noted under the new handle. -/
def answeredTable (t : ClientTable K R) (key : K) (now : R) (origin recvTs : NtpTimestamp) :
    ClientTable K R :=
  let (clients, _, handle) := t.admitHandle key now
  (clients.responseModeAt handle origin).1.noteResponseAt handle recvTs
    (markServerTimestamps recvTs recvTs).1

/-- The receive field does not depend on the mode. -/
theorem timestampFields_fst (mode : ResponseMode) (recvTs : NtpTimestamp) :
    (timestampFields mode recvTs).1 = (markServerTimestamps recvTs recvTs).1 := by
  cases mode <;> rfl

theorem clients_reached (aead : Aead) {d : Datagram K R} {parsed : NtpPacket} {now : R}
    (h : d.reaches = some (parsed, now)) (guard : ServerState K R) :
    (buildReplyIn aead d.request d.peer d.recvTs guard d.clock d.random).1.clients =
      if (guard.clients.admitHandle (clientKey d.peer) now).2.1 = .respond then
        answeredTable guard.clients (clientKey d.peer) now parsed.originTs d.recvTs
      else (guard.clients.admitHandle (clientKey d.peer) now).1 := by
  have hreaches := Datagram.reaches_iff.mp h
  have hgate : (guard.clients.admitHandle (clientKey d.peer) now).2 =
      ((guard.clients.admitHandle (clientKey d.peer) now).2.1,
        (guard.clients.admitHandle (clientKey d.peer) now).2.2) := rfl
  obtain ⟨hkiss, hdrop, hrespond⟩ :=
    buildReplyIn_of_reaches hreaches aead d.peer d.recvTs d.random hgate
  cases hd : (guard.clients.admitHandle (clientKey d.peer) now).2.1 with
  | kissOfDeath =>
    rw [hkiss hd]
    rfl
  | drop =>
    rw [hdrop hd]
    rfl
  | respond =>
    rw [hrespond hd, if_pos rfl]
    unfold respond answeredTable admitted
    dsimp only
    rw [timestampFields_fst]

/-- An answered request is a known client's by now, and its handle is its own. -/
theorem answered_owns (h : Settled t n l) {key : K} {now : R}
    (hrespond : (t.admitHandle key now).2.1 = .respond) :
    Owns (t.admitHandle key now).1 (t.admitHandle key now).2.2 key ∧
      (t.admitHandle key now).1.name (t.admitHandle key now).2.2.slot =
        some (key, (t.admitHandle key now).2.2.generation) := by
  have hg : t.passesGlobal now = true := by
    by_contra hno
    rw [Bool.not_eq_true] at hno
    rw [admitHandle_rejected key hno] at hrespond
    revert hrespond
    unfold dropGlobal
    dsimp only
    split <;> exact fun h => by cases h
  obtain ⟨l', hset⟩ := h.step (.admitHandle key now)
  have hname : (t.admitHandle key now).1.name (t.admitHandle key now).2.2.slot =
      some (key, (t.admitHandle key now).2.2.generation) := admitHandle_name h hg
  change Settled (t.admitHandle key now).1 n l' at hset
  exact ⟨owns_of_name hset hname, hname⟩

/-- An answer changes no slot's client and no other client's marks. -/
theorem answeredTable_spec (h : Settled t n l) {key : K} {now : R}
    (hrespond : (t.admitHandle key now).2.1 = .respond) (origin recvTs : NtpTimestamp) :
    SameShape (t.admitHandle key now).1 (answeredTable t key now origin recvTs) ∧
      ∀ k r', k ≠ key → (answeredTable t key now origin recvTs).get k = some r' →
        ∃ r, (t.admitHandle key now).1.get k = some r ∧ marks r' = marks r := by
  obtain ⟨l', hset⟩ := h.step (.admitHandle key now)
  obtain ⟨howns, hname⟩ := answered_owns h hrespond
  have hlooked := responseModeAt_quiet (t.admitHandle key now).1 (t.admitHandle key now).2.2 origin
  change Settled (t.admitHandle key now).1 n l' at hset
  have hset₂ := hset.sameShape hlooked.toSameShape
  have hname₂ : ((t.admitHandle key now).1.responseModeAt (t.admitHandle key now).2.2 origin).1.name
      (t.admitHandle key now).2.2.slot = some (key, (t.admitHandle key now).2.2.generation) :=
    (hlooked.names _).trans hname
  have howns₂ := owns_of_name hset₂ hname₂
  constructor
  · exact hlooked.toSameShape.trans (noteResponseAt_quiet _ _ _ _).toSameShape
  · intro k r' hk hget
    unfold answeredTable at hget
    dsimp only at hget
    rw [howns₂.noteResponse, howns₂.frame, if_neg hk] at hget
    exact marks_responseModeAt hset _ _ hget

/-- An admission hands a waiting reply's slot on, or leaves it to its client. -/
theorem PendingOk.admitHandle (h : Settled t n l) {p : Pending K} (hp : PendingOk t p) (key : K)
    (now : R) :
    PendingOk (t.admitHandle key now).1
      (if t.allocated (.admitHandle key now) = some p.handle.slot then
        { p with handed := p.handed + 1 } else p) := by
  rcases hp with hinvalid | ⟨hlt, k, hname, hkey⟩
  · refine .inl ?_
    split <;> exact hinvalid
  · rcases name_step h (.admitHandle key now) hname with ⟨hkept, hname'⟩ | ⟨hgone, -, k', hname'⟩
    · rw [if_neg hkept]
      exact .inr ⟨hlt, k, hname', hkey⟩
    · rw [if_pos hgone]
      refine .inr ⟨hlt, k', ?_, fun hzero => absurd hzero (Nat.succ_ne_zero _)⟩
      rw [Nat.mod_add_mod, Nat.add_assoc] at hname'
      exact hname'

/-- The reply to a request that reaches the limiter goes by the handle of its admission. -/
theorem handle_of_reply (aead : Aead) {d : Datagram K R} {parsed : NtpPacket} {now : R}
    (h : d.reaches = some (parsed, now)) (guard : ServerState K R) {reply : Reply}
    (hreply : (buildReplyIn aead d.request d.peer d.recvTs guard d.clock d.random).2 = some reply) :
    reply.handle = (guard.clients.admitHandle (clientKey d.peer) now).2.2 := by
  have hgate : (guard.clients.admitHandle (clientKey d.peer) now).2 =
      ((guard.clients.admitHandle (clientKey d.peer) now).2.1,
        (guard.clients.admitHandle (clientKey d.peer) now).2.2) := rfl
  obtain ⟨hkiss, hdrop, hrespond⟩ := buildReplyIn_of_reaches (Datagram.reaches_iff.mp h) aead d.peer
    d.recvTs d.random hgate
  cases hd : (guard.clients.admitHandle (clientKey d.peer) now).2.1 with
  | kissOfDeath =>
    rw [hkiss hd] at hreply
    obtain rfl := Option.some.inj hreply
    rfl
  | drop =>
    rw [hdrop hd] at hreply
    cases hreply
  | respond =>
    rw [hrespond hd] at hreply
    obtain ⟨bytes, -, rfl⟩ := Option.map_eq_some_iff.mp hreply
    rfl

/-- The handle of an admission names its client, or nothing. -/
theorem pendingOk_admitted (h : Settled t n l)
    (hgens : ∀ i key g, t.name i = some (key, g) → g < 4294967296) (key : K) (now : R)
    (receive : Option NtpTimestamp) :
    PendingOk (t.admitHandle key now).1 ⟨key, (t.admitHandle key now).2.2, receive, 0⟩ := by
  cases hg : t.passesGlobal now with
  | false =>
    refine .inl ?_
    rw [admitHandle_rejected key hg]
  | true =>
    have hname : (t.admitHandle key now).1.name (t.admitHandle key now).2.2.slot =
      some (key, (t.admitHandle key now).2.2.generation) := admitHandle_name h hg
    have hlt := generation_lt_step h (.admitHandle key now) hgens _ _ _ hname
    refine .inr ⟨hlt, key, ?_, fun _ => rfl⟩
    rw [hname, Nat.add_zero, Nat.mod_eq_of_lt hlt]

theorem answers_isSome {d : Datagram K R} {parsed : NtpPacket} {now : R}
    (h : d.reaches = some (parsed, now)) :
    (s.answers d).isSome = true ↔
      (s.guard.clients.admitHandle (clientKey d.peer) now).2.1 = .respond := by
  unfold answers
  rw [h]
  dsimp only
  split
  · next hrespond => exact iff_of_true rfl hrespond
  · next hno => exact iff_of_false (by simp) hno

/-- The marks a built reply leaves: a known client's own, or unset ones. Only an answered client's
are its reply's. -/
theorem marks_built (aead : Aead) {d : Datagram K R} {parsed : NtpPacket} {now : R}
    (hset : Settled s.guard.clients n l) (h : d.reaches = some (parsed, now)) {k : K}
    (hk : ¬(k = clientKey d.peer ∧ (s.answers d).isSome = true)) {r' : ClientRecord R}
    (hget : (buildReplyIn aead d.request d.peer d.recvTs s.guard d.clock d.random).1.clients.get k =
      some r') :
    (∃ r, s.guard.clients.get k = some r ∧ marks r' = marks r) ∨ r'.lastReceiveSent = .zero := by
  rw [clients_reached aead h s.guard] at hget
  rw [answers_isSome h] at hk
  split at hget
  · next hrespond =>
    have hother : k ≠ clientKey d.peer := fun heq => hk ⟨heq, hrespond⟩
    obtain ⟨r₁, hr₁, hsame⟩ :=
      (answeredTable_spec hset hrespond parsed.originTs d.recvTs).2 k r' hother hget
    rcases marks_admitHandle hset _ _ hr₁ with ⟨r, hr, hsame'⟩ | hzero
    · exact .inl ⟨r, hr, hsame.trans hsame'⟩
    · exact .inr ((congrArg Prod.fst hsame).trans hzero)
  · exact marks_admitHandle hset _ _ hget

/-- Nothing that is done after the admission changes the table's shape. -/
theorem sameShape_built (aead : Aead) {d : Datagram K R} {parsed : NtpPacket} {now : R}
    (hset : Settled s.guard.clients n l) (h : d.reaches = some (parsed, now)) :
    SameShape (s.guard.clients.admitHandle (clientKey d.peer) now).1
      (buildReplyIn aead d.request d.peer d.recvTs s.guard d.clock d.random).1.clients := by
  rw [clients_reached aead h s.guard]
  split
  · next hrespond => exact (answeredTable_spec hset hrespond parsed.originTs d.recvTs).1
  · exact .refl _

/-- What was paired before and is still is a client's that was not answered: its marks stay. -/
theorem held_built (aead : Aead) {d : Datagram K R} {parsed : NtpPacket} {now : R}
    (hset : Settled s.guard.clients n l) (h : d.reaches = some (parsed, now))
    (hheld : Held s.guard.clients s.noted s.paired) :
    Held (buildReplyIn aead d.request d.peer d.recvTs s.guard d.clock d.random).1.clients s.noted
      fun k => if k = clientKey d.peer ∧ (s.answers d).isSome then false else s.paired k := by
  intro k r' hget hne hpaired
  dsimp only at hpaired
  by_cases hk : k = clientKey d.peer ∧ (s.answers d).isSome = true
  · rw [if_pos hk] at hpaired
    cases hpaired
  · rw [if_neg hk] at hpaired
    rcases marks_built aead hset h hk hget with ⟨r, hr, hsame⟩ | hzero
    · have hreceive : r'.lastReceiveSent = r.lastReceiveSent := congrArg Prod.fst hsame
      have htransmit : r'.lastTransmit = r.lastTransmit := congrArg Prod.snd hsame
      rw [hreceive] at hne ⊢
      rw [htransmit]
      exact hheld k r hr hne hpaired
    · exact absurd hzero hne

/-- **Building a reply keeps the invariant**, and the new reply's handle is as it should be. -/
theorem build_inv (h : Inv s) (aead : Aead) (d : Datagram K R) :
    Inv (s.build aead d).1 ∧
      ∀ p ∈ (s.build aead d).2, PendingOk (s.build aead d).1.guard.clients p := by
  obtain ⟨n, hn, l, hset⟩ := h.settled
  unfold build
  dsimp only
  cases hreaches : d.reaches with
  | none =>
    obtain ⟨hshape, hget⟩ := clients_unreached aead hreaches s.guard
    constructor
    · refine ⟨⟨n, hn, l, hset.sameShape hshape⟩, ?_, ?_, ?_⟩
      · intro i key g hi
        exact h.generations i key g ((hshape.names i).symm.trans hi)
      · intro p hp
        exact (h.pending p hp).sameShape hshape
      · intro key r hr
        rw [hget] at hr
        exact h.held key r hr
    · intro p hp
      cases hp
  | some reached =>
    obtain ⟨parsed, now⟩ := reached
    obtain ⟨l', hadmitted⟩ := hset.step (.admitHandle (clientKey d.peer) now)
    have hshape := sameShape_built aead hset hreaches
    dsimp only
    constructor
    · refine ⟨⟨n, hn, l', Settled.sameShape hadmitted hshape⟩, ?_, ?_, ?_⟩
      · intro i key g hi
        refine generation_lt_step hset (.admitHandle (clientKey d.peer) now) h.generations i key
          g ?_
        exact (hshape.names i).symm.trans hi
      · intro p' hp'
        obtain ⟨p, hp, rfl⟩ := List.mem_map.mp hp'
        exact ((h.pending p hp).admitHandle hset (clientKey d.peer) now).sameShape hshape
      · exact held_built aead hset hreaches h.held
    · intro p hp
      obtain ⟨reply, hreply, rfl⟩ := Option.mem_map.mp hp
      rw [handle_of_reply aead hreaches s.guard hreply]
      exact (pendingOk_admitted hset h.generations (clientKey d.peer) now _).sameShape hshape

/-! ## Runs -/

/-- **Every event keeps the invariant** that comes when no slot was handed on too often. -/
theorem step_inv (h : Inv s) (aead : Aead) (event : ServingEvent K R) (hmeets : s.Meets event) :
    Inv (s.step aead event) := by
  cases event with
  | datagram d =>
    obtain ⟨hbuilt, hnew⟩ := build_inv h aead d
    refine ⟨hbuilt.settled, hbuilt.generations, ?_, hbuilt.held⟩
    intro p hp
    rcases List.mem_append.mp hp with hold | hreply
    · exact hbuilt.pending p hold
    · exact hnew p (Option.mem_toList.mp hreply)
  | gateway d => exact (build_inv h aead d).1
  | sent count transmit =>
    cases transmit with
    | none => exact ⟨h.settled, h.generations, List.forall_mem_nil _, h.held⟩
    | some transmit =>
      have hnoted := notes_inv transmit (s.pending.take count) h fun p hp =>
        ⟨h.pending p (List.mem_of_mem_take hp), hmeets p hp⟩
      exact ⟨hnoted.settled, hnoted.generations, List.forall_mem_nil _, hnoted.held⟩
  | follow ring stratum upstream => exact ⟨h.settled, h.generations, h.pending, h.held⟩

/-- An interleaved mode is read off the record: both marks are set, and the origin is the first. -/
theorem responseModeAt_interleaved {handle : ClientHandle} {key : K} (howns : Owns t handle key)
    {origin prevTransmit : NtpTimestamp}
    (h : (t.responseModeAt handle origin).2 = .interleaved prevTransmit) :
    ∃ r, t.get key = some r ∧ r.lastReceiveSent = origin ∧ r.lastTransmit = prevTransmit ∧
      origin.isZero = false ∧ prevTransmit.isZero = false := by
  obtain ⟨r, hget, hmode⟩ := howns.responseMode origin
  rw [hmode] at h
  split at h
  · cases h
  · next hset =>
    rw [Bool.or_eq_true, not_or, Bool.not_eq_true, Bool.not_eq_true] at hset
    dsimp only at h
    split at h
    · next hnamed =>
      rw [Bool.and_eq_true, beq_iff_eq] at hnamed
      obtain rfl := ResponseMode.interleaved.inj h
      exact ⟨r, hget, hnamed.1.symm, rfl, hnamed.1 ▸ hset.1, hset.2⟩
    · cases h

/-- **An answer that meets the condition pairs.** -/
theorem pairsAt (h : Inv s) {d : Datagram K R} (hmeets : s.MeetsAt d) : s.PairsAt d := by
  intro origin prevTransmit hanswers hmode
  obtain ⟨n, hn, l, hset⟩ := h.settled
  have horigin := hanswers
  unfold answers at horigin
  unfold mode at hmode
  cases hreaches : d.reaches with
  | none =>
    rw [hreaches] at hmode
    cases hmode
  | some reached =>
    obtain ⟨parsed, now⟩ := reached
    rw [hreaches] at horigin hmode
    dsimp only at horigin hmode
    split at horigin
    · next hrespond =>
      rw [if_pos hrespond] at hmode
      obtain rfl := Option.some.inj horigin
      obtain ⟨r', hget, hreceive, htransmit, hne, hne'⟩ :=
        responseModeAt_interleaved (answered_owns hset hrespond).1 (Option.some.inj hmode)
      have hunset : r'.lastReceiveSent ≠ .zero := by
        intro hzero
        rw [← hreceive, hzero] at hne
        exact absurd hne (by decide)
      rcases marks_admitHandle hset _ _ hget with ⟨r, hr, hsame⟩ | hzero
      · have hfst : r'.lastReceiveSent = r.lastReceiveSent := congrArg Prod.fst hsame
        have hsnd : r'.lastTransmit = r.lastTransmit := congrArg Prod.snd hsame
        rw [hfst] at hreceive hunset
        rw [hsnd] at htransmit
        have hpaired := hmeets _ r hanswers hr hreceive hne (htransmit ▸ hne')
        rw [h.held _ r hr hunset hpaired, hreceive, htransmit]
      · exact absurd hzero hunset
    · cases horigin

theorem pairs_of_meets (h : Inv s) {event : ServingEvent K R} (hmeets : s.Meets event) :
    s.Pairs event := by
  cases event with
  | datagram d => exact pairsAt h hmeets
  | gateway d => exact pairsAt h hmeets
  | sent count transmit => trivial
  | follow ring stratum upstream => trivial

theorem always_pairs (aead : Aead) (events : List (ServingEvent K R)) (h : Inv s)
    (hmeets : Always aead Meets s events) : Always aead Pairs s events := by
  induction events generalizing s with
  | nil => trivial
  | cons event events ih =>
    obtain ⟨hhere, hlater⟩ := hmeets
    exact ⟨pairs_of_meets h hhere, ih (step_inv h aead event hhere) hlater⟩

theorem start_inv {capacity : ℕ} {config : RateLimitConfig R} {hasher : K → UInt64}
    {guard : ServerState K R} (hnew : ClientTable.new capacity config hasher = some guard.clients) :
    Inv (start guard) := by
  obtain ⟨n, hn, hset⟩ := new_settled hnew
  have hempty : ∀ i, guard.clients.core i = none := fun i =>
    core_eq_none_iff.mpr (by rw [← hset.length]; exact Nat.zero_le i)
  refine ⟨⟨n, hn, [], hset⟩, ?_, ?_, ?_⟩
  · intro i key g hi
    change guard.clients.name i = _ at hi
    rw [name, hempty] at hi
    cases hi
  · intro p hp
    cases hp
  · intro key r hget hne hpaired
    cases hpaired

/-- A property of a run holds of its last event. -/
theorem Always.at_last {aead : Aead} {P : Serving K R → ServingEvent K R → Prop}
    {events : List (ServingEvent K R)} {event : ServingEvent K R}
    (h : Always aead P s (events ++ [event])) : P (events.foldl (step aead) s) event := by
  induction events generalizing s with
  | nil => exact h.1
  | cons e events ih => exact ih h.2

/-- **Interleaved mode pairs the exchanges it should**, in every run in which a request that names
the client's last receive field comes after that reply, and no kiss or NAK after it, was noted. -/
theorem run_pairs {capacity : ℕ} {config : RateLimitConfig R} {hasher : K → UInt64}
    {guard : ServerState K R} (hnew : ClientTable.new capacity config hasher = some guard.clients)
    (aead : Aead) (events : List (ServingEvent K R))
    (hmeets : Always aead Meets (start guard) events) : Always aead Pairs (start guard) events :=
  always_pairs aead events (start_inv hnew) hmeets

/-! ### Two exchanges, with a kiss between them or without -/

/-- A plain request of the one client, at a time in seconds, naming a receive field. -/
def plainDatagram (origin recvTs : UInt64) (now : ℚ) : Datagram ℕ ℚ where
  request := plainRequest.take 24 ++ Infra.Bytes.toBe 8 origin.toNat ++ plainRequest.drop 32
  peer := ⟨0, 123⟩
  recvTs := ⟨recvTs⟩
  clock := ⟨some now, some (0, 0)⟩
  random := ⟨fun _ n => some (.replicate n 0)⟩

def firstRequest : Datagram ℕ ℚ := plainDatagram 0 0xED00000000000000 0

/-- The next request, in interleaved mode: it names the first exchange. -/
def nextRequest : Datagram ℕ ℚ := plainDatagram 0xED00000000000001 0xED00000100000000 1

/-- The first exchange. -/
def firstExchange : List (ServingEvent ℕ ℚ) :=
  [.datagram firstRequest, .sent 1 (some ⟨0xED00000000000100⟩)]

/-- A second request comes too early and is kissed. -/
def kissedExchange : List (ServingEvent ℕ ℚ) :=
  [.datagram (plainDatagram 0 0xED00000000001000 0), .sent 1 (some ⟨0xED00000000001100⟩)]

def after (events : List (ServingEvent ℕ ℚ)) (guard : ServerState ℕ ℚ) : Serving ℕ ℚ :=
  events.foldl (step Aead.checksum) (start guard)

/-- Without the kiss the two are paired when the next request comes. -/
theorem paired_firstExchange :
    (smallServer.map fun guard =>
      ((guard.clients.get 0).isSome,
        (after [.datagram firstRequest] guard).pending.map Pending.handed,
        (after firstExchange guard).paired 0)) = some (false, [0], true) := by decide +kernel

theorem run_pairs_next : ∃ guard : ServerState ℕ ℚ,
    Always Aead.checksum Pairs (start guard) (firstExchange ++ [.datagram nextRequest]) := by
  obtain ⟨guard, hguard, hvalues⟩ := Option.map_eq_some_iff.mp paired_firstExchange
  obtain ⟨clients, hnew, rfl⟩ := Option.map_eq_some_iff.mp hguard
  rw [Prod.mk.injEq, Prod.mk.injEq] at hvalues
  obtain ⟨hempty, hhanded, hpaired⟩ := hvalues
  have hfirst : MeetsAt (start ⟨clients, smallRing, 2, .reference⟩) firstRequest := by
    intro origin record _ hget
    rw [show clients.get 0 = some record from hget] at hempty
    cases hempty
  have hsent : ∀ p ∈ (after [.datagram firstRequest]
      ⟨clients, smallRing, 2, .reference⟩).pending.take 1, p.handed < 4294967296 := by
    intro p hp
    have hmem := List.mem_map_of_mem (f := Pending.handed) (List.mem_of_mem_take hp)
    rw [hhanded, List.mem_singleton] at hmem
    rw [hmem]
    decide
  have hnext : MeetsAt (after firstExchange ⟨clients, smallRing, 2, .reference⟩) nextRequest :=
    fun _ _ _ _ _ _ _ => hpaired
  have hmeets : Always Aead.checksum Meets (start ⟨clients, smallRing, 2, .reference⟩)
      (firstExchange ++ [.datagram nextRequest]) :=
    And.intro hfirst (And.intro hsent (And.intro hnext trivial))
  let guard : ServerState ℕ ℚ := ⟨clients, smallRing, 2, .reference⟩
  have hnew' : ClientTable.new _ _ _ = some guard.clients := hnew
  exact ⟨guard, run_pairs hnew' Aead.checksum _ hmeets⟩

/-- What the server makes of it after the kiss: the first exchange's receive field, and when the
kiss left. -/
theorem mode_kissed :
    (smallServer.map fun guard =>
      ((after (firstExchange ++ kissedExchange) guard).answers nextRequest,
        (after (firstExchange ++ kissedExchange) guard).mode nextRequest,
        (after (firstExchange ++ kissedExchange) guard).noted)) =
    some (some ⟨0xED00000000000001⟩, some (.interleaved ⟨0xED00000000001100⟩),
      [⟨0, ⟨0xED00000000000001⟩, ⟨0xED00000000000100⟩⟩]) := by decide +kernel

/-- A kiss is noted like a reply that carries the time. -/
theorem not_run_pairs : ¬∀ (aead : Aead), aead.Ideal → ∀ (capacity : ℕ) (config : RateLimitConfig ℚ)
    (hasher : ℕ → UInt64) (guard : ServerState ℕ ℚ),
    ClientTable.new capacity config hasher = some guard.clients →
      ∀ events, Always aead Pairs (start guard) events := by
  intro h
  obtain ⟨guard, hguard, hvalues⟩ := Option.map_eq_some_iff.mp mode_kissed
  obtain ⟨clients, hnew, rfl⟩ := Option.map_eq_some_iff.mp hguard
  rw [Prod.mk.injEq, Prod.mk.injEq] at hvalues
  obtain ⟨hanswers, hmode, hnoted⟩ := hvalues
  have hpairs := Always.at_last (h Aead.checksum Aead.checksum_ideal 1 _ _
    ⟨clients, smallRing, 2, .reference⟩ hnew
    (firstExchange ++ kissedExchange ++ [.datagram nextRequest]))
  change PairsAt (after (firstExchange ++ kissedExchange) ⟨clients, smallRing, 2, .reference⟩)
    nextRequest at hpairs
  have hfind := hpairs _ _ hanswers hmode
  rw [hnoted] at hfind
  exact absurd hfind (by decide)

end Serving

end RustyTime
