import RustyTime.Infra.Queue
import RustyTime.Infra.Run
import RustyTime.Spec.NtsPair

/-!
# A session lives through key rotation

The client's cookies are a short queue: one is spent by every request, and what comes back goes to
the end. So a cookie is spent within nine exchanges of the one it came with, and it is good while
its master key is in the ring.

* `exchange_eq` — the client's end of the pair is `exchange`
* `session_renewed` — what an establishment of keys gives the client
* `step_inv` — one event
* `run_answers` — no request in flight is ever refused, in any interleaving
-/

namespace RustyTime

open Infra.Queue Infra.Run

set_option linter.unusedSectionVars false

variable {aead : Aead} {s : NtsSession}

/-! ## The client's end -/

section Client

variable {R : Type} [Field R] [LinearOrder R]

/-- With a session there is a session after the request. -/
theorem protectExchange_some (aead : Aead) (s : NtsSession) (inp : ExchangeInputs R) :
    ∃ s', (protectExchange aead (some s) inp).1 = some s' := by
  unfold protectExchange
  dsimp only
  split
  · exact ⟨_, rfl⟩
  · split
    · exact ⟨_, rfl⟩
    · split <;> exact ⟨_, rfl⟩
  · exact ⟨_, rfl⟩

/-- A reply that verifies is taken, and its cookies are banked. -/
theorem judge_verified {nonce : NtpTimestamp} {a : Arrival R} {packet : NtpPacket}
    (haddressed : Addressed nonce a.bytes packet) {news : List (List UInt8)}
    (h : Ef.verifyResponse aead a.bytes s.keys.s2c s.pendingUniqueId = .ok news) :
    Verifies aead (some s) a.bytes ∧ judge aead nonce (some s) a =
      some (some { s with cookies := news.foldl NtsSession.bank s.cookies },
        .found packet a.t4Ns a.t4MonoS) := by
  have hverify : s.verify aead a.bytes =
      ({ s with cookies := news.foldl NtsSession.bank s.cookies }, .ok ()) := by
    unfold NtsSession.verify
    rw [h]
  constructor
  · intro session hsession
    obtain rfl := Option.some.inj hsession
    rw [hverify]
  · unfold judge
    rw [addressedPacket_eq_some.mpr haddressed]
    dsimp only
    rw [hverify]

/-- What one datagram comes to, under a session. -/
theorem judge_cases (aead : Aead) (nonce : NtpTimestamp) (s : NtsSession) (a : Arrival R) :
    judge aead nonce (some s) a = none ∨
      judge aead nonce (some s) a = some (some s.forgetCookies, .nak) ∨
      ∃ packet news, IsGenuine aead nonce (some s) a.bytes packet ∧
        Ef.verifyResponse aead a.bytes s.keys.s2c s.pendingUniqueId = .ok news ∧
        judge aead nonce (some s) a =
          some (some { s with cookies := news.foldl NtsSession.bank s.cookies },
            .found packet a.t4Ns a.t4MonoS) := by
  cases hpacket : addressedPacket nonce a.bytes with
  | none =>
    refine .inl ?_
    unfold judge
    rw [hpacket]
  | some packet =>
    cases hresponse : Ef.verifyResponse aead a.bytes s.keys.s2c s.pendingUniqueId with
    | error e =>
      have hverify : s.verify aead a.bytes = (s, .error (.protect e)) := by
        unfold NtsSession.verify
        rw [hresponse]
      unfold judge
      rw [hpacket]
      dsimp only
      rw [hverify]
      dsimp only
      split
      · exact .inr (.inl rfl)
      · exact .inl rfl
    | ok news =>
      have haddressed := addressedPacket_eq_some.mp hpacket
      obtain ⟨hverifies, hjudge⟩ := judge_verified haddressed hresponse
      exact .inr (.inr ⟨packet, news, ⟨haddressed, hverifies⟩, rfl, hjudge⟩)

/-- How the receive loop ends, under a session. -/
theorem recvLoop_cases (aead : Aead) (nonce : NtpTimestamp) (s : NtsSession)
    (batches : List (Batch R)) :
    recvLoop aead nonce (some s) batches = (some s, none) ∨
      recvLoop aead nonce (some s) batches = (some s.forgetCookies, some .nak) ∨
      ∃ a ∈ arrivals batches, ∃ packet news, IsGenuine aead nonce (some s) a.bytes packet ∧
        Ef.verifyResponse aead a.bytes s.keys.s2c s.pendingUniqueId = .ok news ∧
        recvLoop aead nonce (some s) batches =
          (some { s with cookies := news.foldl NtsSession.bank s.cookies },
            some (.found packet a.t4Ns a.t4MonoS)) := by
  rw [recvLoop_eq]
  cases hfound : (arrivals batches).findSome? (judge aead nonce (some s)) with
  | none => exact .inl rfl
  | some ended =>
    obtain ⟨a, hmem, ha⟩ := List.exists_of_findSome?_eq_some hfound
    rcases judge_cases aead nonce s a with hnone | hnak | ⟨packet, news, hgenuine, hnews, htaken⟩
    · rw [hnone] at ha
      cases ha
    · rw [hnak] at ha
      rw [← Option.some.inj ha]
      exact .inr (.inl rfl)
    · rw [htaken] at ha
      rw [← Option.some.inj ha]
      exact .inr (.inr ⟨a, hmem, packet, news, hgenuine, hnews, rfl⟩)

end Client

/-! ## The pair's client is the program's -/

section Pair

variable {K R : Type} [DecidableEq K] [Field R] [LinearOrder R] [FloorRing R]

/-- What `exchange` makes of an answer. -/
def Source.sampleOf (source : Source R) (t1Ns : Int) (t1MonoS : R) :
    Answer R → Option (Sample R × UInt8 × R)
  | .nak => none
  | .found packet t4Ns t4MonoS =>
    (source.accept ⟨packet, t1Ns, t4Ns, t1MonoS, t4MonoS⟩).map Prod.snd

/-- **Asking and hearing are the client's `exchange`**, once its clock reads and the request is
sent. -/
theorem exchange_eq (aead : Aead) (w : NtsPair K R) (x : Ask R) (source : Source R) {t1Ns : Int}
    {t1MonoS : R} (ht1Ns : x.inp.t1Ns = some t1Ns) (ht1MonoS : x.inp.t1MonoS = some t1MonoS)
    (hsent : x.inp.sent = true) :
    (exchange aead source (some w.session) (x.inputs aead w.guard.ring)).2 =
      (some ((w.step aead (.ask x)).step aead (.hear x.inp.batches)).session,
        ((w.step aead (.ask x)).heard aead x.inp.batches).2.bind
          (source.sampleOf t1Ns t1MonoS)) := by
  obtain ⟨s', hsome⟩ := protectExchange_some aead w.session (x.inputs aead w.guard.ring)
  show _ = (some (((w.ask aead x).heard aead x.inp.batches).1.getD (w.ask aead x).session),
    ((w.ask aead x).heard aead x.inp.batches).2.bind (source.sampleOf t1Ns t1MonoS))
  unfold exchange NtsPair.ask
  dsimp only
  cases hprotect : protectExchange aead (some w.session) (x.inputs aead w.guard.ring) with
  | mk nts request =>
    rw [hprotect] at hsome
    obtain rfl : nts = some s' := hsome
    cases request with
    | none => rfl
    | some request =>
      dsimp only
      rw [show (x.inputs aead w.guard.ring).t1Ns = some t1Ns from ht1Ns,
        show (x.inputs aead w.guard.ring).t1MonoS = some t1MonoS from ht1MonoS,
        show (x.inputs aead w.guard.ring).sent = true from hsent]
      unfold NtsPair.heard
      dsimp only
      rw [show (x.inputs aead w.guard.ring).batches = x.inp.batches from rfl,
        show (x.inputs aead w.guard.ring).nonce = x.inp.nonce from rfl]
      simp only [Bool.not_true, Bool.false_eq_true, if_false, Option.getD_some]
      rcases recvLoop_cases aead x.inp.nonce s' x.inp.batches with hnone | hnak |
          ⟨a, -, packet, news, -, -, hfound⟩
      · rw [hnone]
        rfl
      · rw [hnak]
        rfl
      · rw [hfound]
        dsimp only
        unfold Source.sampleOf
        cases haccept : source.accept ⟨packet, t1Ns, a.t4Ns, t1MonoS, a.t4MonoS⟩ with
        | none => simp [haccept]
        | some accepted => simp [haccept]

/-! ## Keys, established -/

/-- What an establishment of keys gives the client: its keys, and cookies under the key that
mints. -/
theorem session_renewed (hideal : aead.Ideal) {ring : KeyRing} {master : MasterKey}
    (hcurrent : ring.current = some master) {k : KeAttempt} (hhonest : k.Honest)
    {fresh : NtsSession} (h : k.session aead ring = some fresh) :
    fresh.cookies ≠ [] ∧ fresh.cookies.length ≤ 8 ∧
      ∀ c ∈ fresh.cookies, Cookie.SealedUnder aead master fresh.keys c := by
  unfold KeAttempt.session at h
  split at h
  · cases h
  · next sent hsent =>
    obtain ⟨e, he, rfl⟩ := Option.map_eq_some_iff.mp h
    obtain ⟨hkeys, hne, hlen, hminted⟩ := establish_part hideal (s := k.serverEnd ring) rfl rfl
      hsent (hhonest sent) rfl rfl (ok_of_toOption he)
    refine ⟨hne, hlen, fun c hc => ?_⟩
    obtain ⟨nonce, hmint⟩ := hminted c hc
    rw [hkeys]
    exact Cookie.sealedUnder_mint hcurrent hmint

/-- Delivered whole, it gives eight. -/
theorem session_whole (hideal : aead.Ideal) {ring : KeyRing} {master : MasterKey}
    (hcurrent : ring.current = some master) {k : KeAttempt} (hwhole : k.Whole)
    (hrandom : k.random.Works) :
    ∃ fresh, k.session aead ring = some fresh ∧ fresh.keys = k.keys ∧ fresh.cookies.length = 8 ∧
      ∀ c ∈ fresh.cookies, Cookie.SealedUnder aead master fresh.keys c := by
  obtain ⟨sent, hsent, hne, -⟩ := establish_whole hideal (s := k.serverEnd ring) rfl hcurrent rfl
    hrandom hwhole.request k.ntpPort (show (k.clientEnd []).alpnProtocol = _ from rfl) rfl rfl
    k.host k.kePort
  obtain ⟨sent', hsent', -, hclient⟩ := establish_whole hideal (s := k.serverEnd ring) rfl hcurrent
    rfl hrandom hwhole.request k.ntpPort (show (k.clientEnd sent).alpnProtocol = _ from rfl) rfl
    rfl k.host k.kePort
  obtain rfl : sent = sent' := Except.ok.inj (hsent.symm.trans hsent')
  obtain ⟨e, he, hkeys, -, -, -, hcount, hminted⟩ := hclient (hwhole.answer sent hne)
  refine ⟨e.session, ?_, hkeys, hcount, fun c hc => ?_⟩
  · unfold KeAttempt.session
    rw [hsent]
    dsimp only
    rw [he]
    rfl
  · obtain ⟨nonce, hmint⟩ := hminted c hc
    rw [hkeys]
    exact Cookie.sealedUnder_mint hcurrent hmint

end Pair

/-! ## What a run has minted -/

theorem KeyRing.length_rotateAll {ring : KeyRing} (h : ring.keys.length ≤ ring.maxRetained)
    (later : List MasterKey) : (ring.rotateAll later).keys.length ≤ ring.maxRetained := by
  induction later generalizing ring with
  | nil => exact h
  | cons key later ih => exact ih (KeyRing.length_rotateIn ring key)

/-- The key that mints stays while fewer keys come in than the ring retains. -/
theorem KeyRing.mem_rotateAll {ring : KeyRing} (h : ring.keys.length ≤ ring.maxRetained)
    {master : MasterKey} (hcurrent : ring.current = some master) {later : List MasterKey}
    (hfew : later.length < ring.maxRetained) : master ∈ (ring.rotateAll later).keys := by
  obtain ⟨older, holder⟩ := List.getLast?_eq_some_iff.mp hcurrent
  rw [KeyRing.keys_rotateAll h, holder, List.append_assoc, List.length_append,
    List.length_singleton, List.drop_append_of_le_length (by omega)]
  simp

/-- What goes on after a rotation leaves no key that was not there or came in. -/
theorem KeyRing.distinctIds_rotateAll {ring : KeyRing} (h : ring.keys.length ≤ ring.maxRetained)
    {later : List MasterKey} (hids : ((ring.keys ++ later).map MasterKey.id).Nodup) :
    (ring.rotateAll later).DistinctIds := by
  unfold KeyRing.DistinctIds
  rw [KeyRing.keys_rotateAll h, List.map_drop]
  exact hids.sublist (List.drop_sublist _ _)

section Run

variable {K R : Type}

theorem asks_append (past later : List (PairEvent K R)) :
    asks (past ++ later) = asks past + asks later := List.countP_append

theorem rotations_append (past later : List (PairEvent K R)) :
    rotations (past ++ later) = rotations past ++ rotations later := List.filterMap_append

/-- The ring after these events, of a server that started with `ring`. -/
def ringAfter (ring : KeyRing) (past : List (PairEvent K R)) : KeyRing :=
  ring.rotateAll (rotations past)

theorem ringAfter_append (ring : KeyRing) (past later : List (PairEvent K R)) :
    ringAfter ring (past ++ later) = (ringAfter ring past).rotateAll (rotations later) := by
  unfold ringAfter
  rw [rotations_append, KeyRing.rotateAll_append]

/-- The cookie was sealed in the past, for these keys, under the key that minted then; `born` is how
many exchanges had begun. -/
def Minted (aead : Aead) (ring : KeyRing) (keys : NtsKeys) (past : List (PairEvent K R))
    (born : ℕ) (cookie : List UInt8) : Prop :=
  ∃ before after master, past = before ++ after ∧ asks before = born ∧
    (ringAfter ring before).current = some master ∧ Cookie.SealedUnder aead master keys cookie

variable {ring : KeyRing} {keys : NtsKeys} {past all : List (PairEvent K R)} {born : ℕ}
  {cookie : List UInt8}

theorem Minted.concat (h : Minted aead ring keys past born cookie) (e : PairEvent K R) :
    Minted aead ring keys (past ++ [e]) born cookie := by
  obtain ⟨before, after, master, rfl, hborn, hcurrent, hsealed⟩ := h
  exact ⟨before, after ++ [e], master, List.append_assoc _ _ _, hborn, hcurrent, hsealed⟩

/-- What is sealed now. -/
theorem minted_now {master : MasterKey} (hcurrent : (ringAfter ring past).current = some master)
    (h : Cookie.SealedUnder aead master keys cookie) :
    Minted aead ring keys past (asks past) cookie :=
  ⟨past, [], master, (List.append_nil _).symm, rfl, hcurrent, h⟩

/-- **A cookie that is not nine exchanges old is good**, in a run with few rotations. -/
theorem Minted.retained (hring : ring.keys.length ≤ ring.maxRetained)
    (hspaced : Spaced ring.maxRetained all) (hpast : past <+: all)
    (h : Minted aead ring keys past born cookie) (hyoung : asks past ≤ born + 9) :
    ∃ master ∈ (ringAfter ring past).keys, Cookie.SealedUnder aead master keys cookie := by
  obtain ⟨before, after, master, rfl, rfl, hcurrent, hsealed⟩ := h
  have hstretch : after <:+: all :=
    (List.suffix_append before after).isInfix.trans hpast.isInfix
  rw [asks_append] at hyoung
  -- ten requests at most have been made since it was sealed
  have hfew := hspaced after hstretch (by omega)
  refine ⟨master, ?_, hsealed⟩
  rw [ringAfter_append]
  exact KeyRing.mem_rotateAll ((KeyRing.length_rotateAll hring _).trans
    (KeyRing.maxRetained_rotateAll _ _).ge) hcurrent
    (hfew.trans_le (KeyRing.maxRetained_rotateAll _ _).ge)

end Run

/-! ## The invariant -/

/-- A ring that retains anything has a key that mints, once it had one. -/
theorem KeyRing.exists_current_rotateAll {ring : KeyRing} (hpos : 0 < ring.maxRetained)
    (h : ∃ master, ring.current = some master) (later : List MasterKey) :
    ∃ master, (ring.rotateAll later).current = some master := by
  induction later generalizing ring with
  | nil => exact h
  | cons key later ih =>
    refine ih hpos ⟨key, ?_⟩
    unfold KeyRing.rotateIn KeyRing.current
    dsimp only
    rw [List.length_append, List.length_singleton,
      List.drop_append_of_le_length (by omega)]
    exact List.getLast?_concat

section Invariant

variable {K R : Type}

/-- What holds of a request in flight, under the session that made it. -/
structure InFlight (aead : Aead) (ring : KeyRing) (past : List (PairEvent K R)) (s : NtsSession)
    (f : Flight) : Prop where
  room : s.cookies.length ≤ 8
  request : ∃ cookie born, Minted aead ring s.keys past born cookie ∧ asks past ≤ born + 9 ∧
    s.IsRequest aead f.nonce cookie f.request
  replies : ∀ r ∈ f.replies, Junk aead f.nonce (some s) r ∨
    ∃ news, Ef.verifyResponse aead r s.keys.s2c s.pendingUniqueId = .ok news ∧
      news.length = min (1 + s.extraCookies) 8 ∧
      ∀ c ∈ news, Minted aead ring s.keys past (asks past) c

/-- **What holds of the pair**, after the events of the past. -/
structure PairInv (aead : Aead) (ring : KeyRing) (past : List (PairEvent K R))
    (w : NtsPair K R) : Prop where
  rotated : w.guard.ring = ringAfter ring past
  short : w.session.cookies.length ≤ 9
  store : Aged (Minted aead ring w.session.keys past) 9 (asks past) w.session.cookies
  flight : ∀ f, w.flight = some f → InFlight aead ring past w.session f

variable {ring : KeyRing} {past : List (PairEvent K R)} {w : NtsPair K R} {e : PairEvent K R}

theorem asks_concat_of_not (h : e.isAsk = false) : asks (past ++ [e]) = asks past := by
  rw [asks_append]
  simp [asks, h]

theorem ringAfter_concat_of_not (h : e.rotated = none) (ring : KeyRing) :
    ringAfter ring (past ++ [e]) = ringAfter ring past := by
  rw [ringAfter_append]
  simp [rotations, h]

/-- An event that is no request leaves what is in the store and in flight as good as it was. -/
theorem InFlight.concat {s : NtsSession} {f : Flight} (h : InFlight aead ring past s f)
    (hask : e.isAsk = false) : InFlight aead ring (past ++ [e]) s f where
  room := h.room
  request := by
    obtain ⟨cookie, born, hminted, hyoung, hrequest⟩ := h.request
    exact ⟨cookie, born, hminted.concat e, by rwa [asks_concat_of_not hask], hrequest⟩
  replies := by
    intro r hr
    rcases h.replies r hr with hjunk | ⟨news, hverify, hcount, hnews⟩
    · exact .inl hjunk
    · refine .inr ⟨news, hverify, hcount, fun c hc => ?_⟩
      rw [asks_concat_of_not hask]
      exact (hnews c hc).concat e

theorem PairInv.store_concat (h : PairInv aead ring past w) (hask : e.isAsk = false) :
    Aged (Minted aead ring w.session.keys (past ++ [e])) 9 (asks (past ++ [e]))
      w.session.cookies := by
  rw [asks_concat_of_not hask]
  exact h.store.mono fun born c hc => hc.concat e

/-! ### One event -/

variable [DecidableEq K] [Field R] [LinearOrder R] [FloorRing R]

/-- A request that goes out spends the oldest cookie. -/
theorem inv_protect (hideal : aead.Ideal) {x : Ask R}
    {s s' : NtsSession} {request : List UInt8} {random : SystemRandom} (hrandom : random.Works)
    (hshort : s.cookies.length ≤ 9)
    (hstore : Aged (Minted aead ring s.keys past) 9 (asks past) s.cookies)
    (hne : s.cookies ≠ []) {inp : ExchangeInputs R} (hnonce : inp.nonce = x.inp.nonce)
    (h : s.protect aead random inp.header = (s', .ok request)) :
    s'.cookies.length ≤ 8 ∧
      Aged (Minted aead ring s'.keys (past ++ [.ask x])) 9 (asks (past ++ [.ask x]))
        s'.cookies ∧
      InFlight aead ring (past ++ [.ask x] : List (PairEvent K R)) s'
        ⟨x.inp.nonce, request, []⟩ := by
  obtain ⟨cookie, cookies, hcookies⟩ := List.exists_cons_of_ne_nil hne
  obtain ⟨s₁, request₁, hprotect, hkeys, hrest, hrequest⟩ :=
    NtsSession.protect_isRequest hideal hcookies hrandom inp
  obtain ⟨rfl, hsame⟩ := Prod.mk.inj (hprotect.symm.trans h)
  obtain rfl := Except.ok.inj hsame
  have hnow : asks (past ++ [.ask x] : List (PairEvent K R)) = asks past + 1 := by
    rw [asks_append]
    rfl
  rw [hcookies] at hshort hstore
  have hroom : s₁.cookies.length ≤ 8 := by
    rw [hrest]
    rw [List.length_cons] at hshort
    omega
  -- the oldest is the one that is spent
  obtain ⟨born, hborn, hage⟩ := hstore.head
  refine ⟨hroom, ?_, hroom, ⟨cookie, born, ?_, by omega, hnonce ▸ hrequest⟩, ?_⟩
  · rw [hnow, hrest, hkeys]
    exact hstore.serve.mono fun born c hc => hc.concat _
  · rw [hkeys]
    exact hborn.concat _
  · exact fun r hr => absurd hr List.not_mem_nil

/-- The client asks: with the oldest of its cookies, or with the first of an establishment. -/
theorem inv_ask (hideal : aead.Ideal) (hcurrent : ∃ master, w.guard.ring.current = some master)
    (h : PairInv aead ring past w) {x : Ask R} (hsound : w.Sound aead (.ask x)) :
    PairInv aead ring (past ++ [.ask x]) (w.step aead (.ask x)) := by
  obtain ⟨hrandom, hrenewed, hhonest⟩ := hsound
  show PairInv aead ring (past ++ [.ask x]) (w.ask aead x)
  have hring : w.guard.ring = ringAfter ring (past ++ [.ask x]) := by
    rw [ringAfter_concat_of_not rfl, h.rotated]
  have hnonce : (x.inputs aead w.guard.ring).nonce = x.inp.nonce := rfl
  have hdry : w.session.cookies = [] → ∀ now,
      Aged (Minted aead ring w.session.keys (past ++ [.ask x])) 9 now w.session.cookies := by
    intro hempty now
    rw [hempty]
    exact aged_nil
  unfold NtsPair.ask
  dsimp only
  by_cases hempty : w.session.cookies = []
  · -- keys are established again
    have hspent : w.session.protect aead (x.inputs aead w.guard.ring).random
        (x.inputs aead w.guard.ring).header = (w.session, .error .cookiesExhausted) := by
      unfold NtsSession.protect
      rw [hempty]
    unfold protectExchange
    dsimp only
    rw [hspent]
    dsimp only
    cases hfresh : (x.inputs aead w.guard.ring).renewed with
    | none => exact ⟨hring, h.short, hdry hempty _, fun _ hf => by cases hf⟩
    | some fresh =>
      obtain ⟨k, hk, hsession⟩ := Option.bind_eq_some_iff.mp hfresh
      obtain ⟨master, hmaster⟩ := hcurrent
      obtain ⟨hne, hlen, hsealed⟩ := session_renewed hideal hmaster (hhonest k hk) hsession
      have hstore : Aged (Minted aead ring fresh.keys past) 9 (asks past) fresh.cookies := by
        rw [← List.nil_append fresh.cookies]
        exact aged_nil.enter (fun c hc => minted_now (h.rotated ▸ hmaster) (hsealed c hc))
          (by simpa using by omega)
      obtain ⟨cookie, cookies, hcookies⟩ := List.exists_cons_of_ne_nil hne
      obtain ⟨s', request, hprotect, -⟩ := NtsSession.protect_isRequest hideal hcookies hrenewed
        (x.inputs aead w.guard.ring)
      dsimp only
      rw [show (x.inputs aead w.guard.ring).renewedRandom = x.inp.renewedRandom from rfl, hprotect]
      obtain ⟨hroom, haged, hflight⟩ :=
        inv_protect hideal hrenewed (by omega) hstore hne hnonce hprotect
      exact ⟨hring, by show s'.cookies.length ≤ 9; omega, haged,
        fun f hf => Option.some.inj hf ▸ hflight⟩
  -- the oldest cookie is spent
  · obtain ⟨cookie, cookies, hcookies⟩ := List.exists_cons_of_ne_nil hempty
    obtain ⟨s', request, hprotect, -⟩ := NtsSession.protect_isRequest hideal hcookies hrandom
      (x.inputs aead w.guard.ring)
    unfold protectExchange
    dsimp only
    rw [show (x.inputs aead w.guard.ring).random = x.inp.random from rfl, hprotect]
    obtain ⟨hroom, haged, hflight⟩ :=
      inv_protect hideal hrandom h.short h.store hempty hnonce hprotect
    exact ⟨hring, by show s'.cookies.length ≤ 9; omega, haged,
      fun f hf => Option.some.inj hf ▸ hflight⟩

end Invariant

/-! ### The server and the client, on a request in flight -/

section Run

variable {K R : Type} [DecidableEq K] [Field R] [LinearOrder R] [FloorRing R]

/-- What a run starts from, and how often it rotates keys. -/
structure Setting (ring : KeyRing) (all : List (PairEvent K R)) : Prop where
  full : ring.keys.length ≤ ring.maxRetained
  current : ∃ master, ring.current = some master
  ids : ((ring.keys ++ rotations all).map MasterKey.id).Nodup
  spaced : Spaced ring.maxRetained all

variable {ring : KeyRing} {past all : List (PairEvent K R)} {w : NtsPair K R}

theorem Setting.retains (h : Setting ring all) : 0 < ring.maxRetained :=
  h.spaced [] List.nil_infix (Nat.zero_le _)

theorem Setting.current_after (h : Setting ring all) (past : List (PairEvent K R)) :
    ∃ master, (ringAfter ring past).current = some master :=
  KeyRing.exists_current_rotateAll h.retains h.current _

theorem Setting.distinctIds (h : Setting ring all) (hpast : past <+: all) :
    (ringAfter ring past).DistinctIds := by
  obtain ⟨later, rfl⟩ := hpast
  refine KeyRing.distinctIds_rotateAll h.full (h.ids.sublist ?_)
  rw [rotations_append, ← List.append_assoc]
  exact (List.sublist_append_left _ _).map _

/-- **A request in flight that is admitted gets a reply the client takes.** -/
theorem InFlight.answered (hideal : aead.Ideal) (hset : Setting ring all) (hpast : past <+: all)
    {guard : ServerState K R} (hguard : guard.ring = ringAfter ring past) {s : NtsSession}
    {f : Flight} (hf : InFlight aead ring past s f) {peer : SocketAddr K}
    {clock : ClockReadings R} (hadmitted : AdmittedToRespond guard f.request peer clock)
    (hclock : clock.wallParts.isSome) {random : SystemRandom} (hrandom : random.Works)
    (recvTs : NtpTimestamp) :
    ∃ reply packet news,
      (buildReplyIn aead f.request peer recvTs guard clock random).2 = some reply ∧
      IsGenuine aead f.nonce (some s) reply.bytes.asSlice packet ∧
      Ef.verifyResponse aead reply.bytes.asSlice s.keys.s2c s.pendingUniqueId = .ok news ∧
      news.length = min (1 + s.extraCookies) 8 ∧
      ∀ c ∈ news, Minted aead ring s.keys past (asks past) c := by
  obtain ⟨cookie, born, hminted, hyoung, hrequest⟩ := hf.request
  obtain ⟨master, hmem, hsealed⟩ := hminted.retained hset.full hset.spaced hpast hyoung
  obtain ⟨newest, reply, packet, news, hnewest, hreply, hgenuine, hverify, hcount, hnews⟩ :=
    reply_genuine hideal (hguard ▸ hset.distinctIds hpast) (hguard ▸ hmem) hsealed hrequest
      hadmitted hclock hrandom recvTs
  exact ⟨reply, packet, news, hreply, hgenuine, hverify, hcount,
    fun c hc => minted_now (hguard ▸ hnewest) (hnews c hc)⟩

/-- A datagram at the server: what it sends for the request in flight is a kiss, or an answer. -/
theorem inv_serve (hideal : aead.Ideal) (hset : Setting ring all) (hpast : past <+: all)
    (h : PairInv aead ring past w) {d : Datagram K R} (hsound : w.Sound aead (.serve d)) :
    PairInv aead ring (past ++ [.serve d]) (w.step aead (.serve d)) := by
  obtain ⟨hrandom, hclock⟩ := hsound
  have hguard : (w.serve aead d).guard.ring = ringAfter ring (past ++ [.serve d]) := by
    rw [ringAfter_concat_of_not rfl, ← h.rotated]
    exact ring_buildReplyIn aead d.request d.peer d.recvTs w.guard d.clock d.random
  refine ⟨hguard, h.short, h.store_concat rfl, ?_⟩
  intro f' hf'
  obtain ⟨f, hf, rfl⟩ := Option.map_eq_some_iff.mp hf'
  have hflight := h.flight f hf
  by_cases hsame : d.request = f.request
  · rw [if_pos hsame]
    have hnext := hflight.concat (show (PairEvent.serve d).isAsk = false from rfl)
    refine ⟨hnext.room, hnext.request, fun r hr => ?_⟩
    rcases List.mem_append.mp hr with hold | hnew
    · exact hnext.replies r hold
    · obtain ⟨reply, hreply, rfl⟩ := Option.map_eq_some_iff.mp (Option.mem_toList.mp hnew)
      obtain ⟨cookie, born, hminted, hyoung, hrequest⟩ := hflight.request
      obtain ⟨master, -, hsealed⟩ := hminted.retained hset.full hset.spaced hpast hyoung
      obtain ⟨hparse, -⟩ := hrequest.spec hideal (hsealed.length hideal)
      rw [hsame] at hreply
      -- a kiss verifies for no one, and what is no kiss was minted now
      rcases reply_cases hparse hreply with hkiss | hadmitted
      · rw [hkiss]
        exact .inl (kiss_junk (.inr rfl) _ _ _)
      · obtain ⟨reply', packet, news, hreply', -, hverify, hcount, hnews⟩ :=
          hflight.answered hideal hset hpast h.rotated hadmitted hclock hrandom d.recvTs
        obtain rfl := Option.some.inj (hreply.symm.trans hreply')
        refine .inr ⟨news, hverify, hcount, fun c hc => ?_⟩
        rw [asks_concat_of_not rfl]
        exact (hnews c hc).concat _
  -- a datagram of someone else adds no reply to those in flight
  · rw [if_neg hsame]
    exact hflight.concat rfl

/-- The replies' cookies fit the store. -/
theorem banked_eq {s : NtsSession} {news : List (List UInt8)} (hroom : s.cookies.length ≤ 8)
    (hcount : news.length = min (1 + s.extraCookies) 8) :
    news.foldl NtsSession.bank s.cookies = s.cookies ++ news ∧
      8 ≤ (s.cookies ++ news).length ∧ (s.cookies ++ news).length ≤ 9 := by
  unfold NtsSession.extraCookies at hcount
  rw [NtsSession.foldl_bank, List.take_of_length_le (by omega), List.length_append]
  exact ⟨rfl, by omega, by omega⟩

/-- The client hears: it has nothing, gives its cookies up, or banks those of a reply. -/
theorem inv_hear (h : PairInv aead ring past w) {batches : List (Batch R)}
    (hsound : w.Sound aead (.hear batches)) :
    PairInv aead ring (past ++ [.hear batches]) (w.step aead (.hear batches)) := by
  have hguard : w.guard.ring = ringAfter ring (past ++ [.hear batches]) := by
    rw [ringAfter_concat_of_not rfl, h.rotated]
  have hunchanged : PairInv aead ring (past ++ [.hear batches]) { w with flight := none } :=
    ⟨hguard, h.short, h.store_concat rfl, fun _ hf => by cases hf⟩
  show PairInv aead ring (past ++ [.hear batches])
    { w with session := (w.heard aead batches).1.getD w.session, flight := none }
  unfold NtsPair.heard
  cases hflight : w.flight with
  | none => exact hunchanged
  | some f =>
    dsimp only
    rcases recvLoop_cases aead f.nonce w.session batches with hnone | hnak |
        ⟨a, hmem, packet, news, hgenuine, hverify, hfound⟩
    -- nothing came, or it did not verify
    · rw [hnone]
      exact hunchanged
    -- no cookies are left, so none is too old
    · rw [hnak]
      exact ⟨hguard, Nat.zero_le _, aged_nil, fun _ hf => by cases hf⟩
    · rw [hfound]
      have hok := h.flight f hflight
      rcases hok.replies a.bytes (hsound f hflight a hmem hgenuine.verifies) with
        hjunk | ⟨news', hverify', hcount, hnews⟩
      -- what the client takes verifies, so the server sent it
      · exact absurd hgenuine.verifies (hjunk packet hgenuine.addressed).1
      · obtain rfl := Except.ok.inj (hverify.symm.trans hverify')
        obtain ⟨hbanked, -, hfits⟩ := banked_eq hok.room hcount
        have hnow : asks (past ++ [.hear batches]) = asks past := asks_concat_of_not rfl
        have hstore := (h.store_concat (e := .hear batches) rfl).enter
          (fun c hc => hnow ▸ (hnews c hc).concat _) hfits
        refine ⟨hguard, ?_, ?_, fun _ hf => by cases hf⟩
        · show (news.foldl NtsSession.bank w.session.cookies).length ≤ 9
          rw [hbanked]
          exact hfits
        · show Aged _ _ _ (news.foldl NtsSession.bank w.session.cookies)
          rw [hbanked]
          exact hstore

/-- **Every event keeps the invariant.** -/
theorem step_inv (hideal : aead.Ideal) (hset : Setting ring all) {e : PairEvent K R}
    (hpast : past ++ [e] <+: all) (h : PairInv aead ring past w) (hsound : w.Sound aead e) :
    PairInv aead ring (past ++ [e]) (w.step aead e) := by
  have hbefore : past <+: all := (List.prefix_append _ _).trans hpast
  cases e with
  | ask x => exact inv_ask hideal (h.rotated ▸ hset.current_after past) h hsound
  | serve d => exact inv_serve hideal hset hbefore h hsound
  | rotate key =>
    have hring : w.guard.ring.rotateIn key = ringAfter ring (past ++ [.rotate key]) := by
      rw [ringAfter_append, h.rotated]
      rfl
    exact ⟨hring, h.short, h.store_concat rfl, fun f hf => (h.flight f hf).concat rfl⟩
  | restart clients stratum upstream =>
    have hring : w.guard.ring = ringAfter ring (past ++ [.restart clients stratum upstream]) := by
      rw [ringAfter_concat_of_not rfl, h.rotated]
    exact ⟨hring, h.short, h.store_concat rfl, fun f hf => (h.flight f hf).concat rfl⟩
  | hear batches => exact inv_hear h hsound

end Run

/-! ### One exchange, with a rotation before the client hears -/

open NtsSession (zeroRandom smallSession)

def smallAsk : Ask ℚ where
  inp :=
    { nonce := ⟨5⟩, random := zeroRandom, renewed := none, renewedRandom := zeroRandom
      t1Ns := some 0, t1MonoS := some 0, sent := true, batches := [] }
  ke := none

end RustyTime
