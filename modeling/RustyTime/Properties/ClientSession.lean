import RustyTime.Infra.Run
import RustyTime.Properties.StoredCookies

/-!
# Client sessions saved and restored

A session is read from its keys, its endpoint and its cookies. A save writes these one by one, so
what a save leaves is known by how far it came.

* `getClientSession_acts`, `save_acts` — reading and saving, on the map
* `session_resumed_iff` — when a session comes back with its endpoint
* `saves_unmixed` — when a failed save leaves no session of two
-/

namespace RustyTime.Store

open Infra.Program Infra.Scan Infra.Run
open Infra.Cursor (ok_bind bind_eq_ok)

variable {aead : Aes256Gcm} {m m' : Contents} {host : String}

theorem keyField_inj {host host' : String} (h : keyField host = keyField host') : host = host' :=
  (compoundKey_inj (by decide) (by decide) h).2.1

theorem metaField_inj {host host' : String} (h : metaField host = metaField host') : host = host' :=
  (compoundKey_inj (by decide) (by decide) h).2.1

theorem keyField_ne_metaField (host host' : String) : keyField host ≠ metaField host' := by
  intro h
  have hkind := (compoundKey_inj (by decide) (by decide) h).1
  exact absurd hkind (by decide)

/-! ## Reading a session -/

/-- **`get_client_session` reads the session of the map.** -/
theorem getClientSession_acts (host : String) :
    Acts Stands (getClientSession aead host) m (m.session aead host) m := by
  unfold getClientSession Contents.session
  refine .bind_read (getSealed_acts aead m .keys (keyField host)) fun value => ?_
  cases value with
  | none => exact .pure none
  | some raw =>
    have hbind : (some raw).bind keysOf = keysOf raw := rfl
    dsimp only
    rw [hbind]
    cases keysOf raw with
    | none => exact .pure none
    | some keys =>
      dsimp only
      unfold Contents.endpoint
      rw [bind_assoc]
      refine .bind_read (getSealed_acts aead m .keys (metaField host)) fun value => ?_
      cases value with
      | none => exact .pure none
      | some raw =>
        dsimp only
        rw [bind_assoc]
        refine .bind_read (.ofExcept (text raw "client meta is not utf-8")) fun words => ?_
        rw [pure_bind]
        cases endpointOf words with
        | none => exact .pure none
        | some endpoint =>
          refine .bind_read (getCookies_acts aead m host) fun cookies => ?_
          split
          · exact .pure none
          · exact .pure _

theorem sessionNow_eq {s : Store} (h : Stands s m) (host : String) :
    sessionNow aead s host = m.session aead host :=
  ((getClientSession_acts host).answer_eq h).1

/-- A session that is read, by its parts. -/
structure Reads (aead : Aes256Gcm) (m : Contents) (host : String) (session : StoredClientSession) :
    Prop where
  keys : ∃ raw, m.entry aead .keys (keyField host) = .ok (some raw) ∧
    keysOf raw = some session.keys
  endpoint : m.endpoint aead host = .ok (some (session.ntpServer, session.ntpPort))
  cookies : m.cookies aead host = .ok session.cookies
  some : session.cookies ≠ []

theorem session_of_reads {session : StoredClientSession} (h : Reads aead m host session) :
    m.session aead host = .ok (some session) := by
  obtain ⟨raw, hraw, hkeys⟩ := h.keys
  have hbind : (some raw).bind keysOf = some session.keys := hkeys
  unfold Contents.session
  show (m.entry aead .keys (keyField host) >>= _) = _
  rw [hraw, ok_bind, hbind]
  dsimp only
  rw [h.endpoint, ok_bind]
  dsimp only
  rw [h.cookies, ok_bind, if_neg h.some]
  rfl

theorem reads_of_session {session : StoredClientSession}
    (h : m.session aead host = .ok (some session)) : Reads aead m host session := by
  unfold Contents.session at h
  obtain ⟨value, hvalue, h⟩ := bind_eq_ok.mp h
  split at h
  · cases h
  · next keys hkeys =>
    obtain ⟨endpoint, hendpoint, h⟩ := bind_eq_ok.mp h
    cases endpoint with
    | none => cases h
    | some endpoint =>
      obtain ⟨cookies, hcookies, h⟩ := bind_eq_ok.mp h
      split at h
      · cases h
      · next hne =>
        cases h
        obtain ⟨raw, rfl, hraw⟩ := Option.bind_eq_some_iff.mp hkeys
        exact ⟨⟨raw, hvalue, hraw⟩, hendpoint, hcookies, hne⟩

/-- A session depends on its own entries. -/
theorem session_congr (hkeys : m .keys (keyField host) = m' .keys (keyField host))
    (hmeta : m .keys (metaField host) = m' .keys (metaField host))
    (hcookies : ∀ i, m .cookies (cookieKey host i) = m' .cookies (cookieKey host i)) :
    m.session aead host = m'.session aead host := by
  have hendpoint : m.endpoint aead host = m'.endpoint aead host := by
    unfold Contents.endpoint
    rw [entry_congr hmeta]
  have hall : m.cookies aead host = m'.cookies aead host :=
    scan_congr fun j _ => cookie_congr (hcookies _)
  unfold Contents.session
  rw [entry_congr hkeys, hendpoint, hall]

/-- The keys are read back from the bytes they were put together into. -/
theorem keysOf_append (keys : NtsKeys) :
    keysOf (keys.c2s.toList ++ keys.s2c.toList) = some keys := by
  obtain ⟨c2s, s2c⟩ := keys
  have hc2s : c2s.toList.length = 32 := c2s.length_toList
  have hs2c : s2c.toList.length = 32 := s2c.length_toList
  have htake : (c2s.toList ++ s2c.toList).take 32 = c2s.toList := List.take_left' hc2s
  have hdrop : (c2s.toList ++ s2c.toList).drop 32 = s2c.toList := List.drop_left' hc2s
  unfold keysOf
  rw [dif_pos (by rw [List.length_append, hc2s, hs2c])]
  refine congrArg some ?_
  rw [NtsKeys.mk.injEq]
  constructor
  · refine Vector.toList_inj.mp ?_
    show ((c2s.toList ++ s2c.toList).take 32).toArray.toList = c2s.toList
    rw [List.toList_toArray, htake]
  · refine Vector.toList_inj.mp ?_
    show ((c2s.toList ++ s2c.toList).drop 32).toArray.toList = s2c.toList
    rw [List.toList_toArray, hdrop]

/-! ## Saving a session -/

/-- What a save leaves of the map: all of it, or with new keys, or with a new endpoint too and as
many cookies as it came to. -/
inductive Saved (aead : Aes256Gcm) (save : Save) (m : Contents) :
    Except StoreError Unit → Contents → Prop
  | refused {e : StoreError} : ¬save.AcceptsKeys aead → Saved aead save m (.error e) m
  | keys {e : StoreError} {value : String} : save.AcceptsKeys aead → ¬save.AcceptsMeta aead →
      Sealed aead (keyField save.host) (save.keys.c2s.toList ++ save.keys.s2c.toList) value →
        Saved aead save m (.error e) (m.put .keys (keyField save.host) value)
  | cookies {r : Except StoreError Unit} {m' : Contents} {keysValue metaValue : String}
      {written retired : Nat} : save.AcceptsKeys aead → save.AcceptsMeta aead →
      Sealed aead (keyField save.host) (save.keys.c2s.toList ++ save.keys.s2c.toList) keysValue →
      Sealed aead (metaField save.host) (asBytes (metaText save.ntpServer save.ntpPort)) metaValue →
      PutCookies aead save.system save.host save.cookies ((m.put .keys (keyField save.host)
        keysValue).put .keys (metaField save.host) metaValue) m' r written retired →
        Saved aead save m r m'

/-- **What a save does.** -/
theorem save_acts (aead : Aes256Gcm) (m : Contents) (save : Save) :
    ∃ r m', Acts Stands (putClientSession aead save.system save.host save.keys save.cookies
      save.ntpServer save.ntpPort) m r m' ∧ Saved aead save m r m' := by
  unfold putClientSession
  by_cases hkeys : save.AcceptsKeys aead
  · obtain ⟨keysValue, hkeysSealed, hputKeys⟩ := putSealed_acts (m := m) hkeys
    by_cases hmeta : save.AcceptsMeta aead
    · obtain ⟨metaValue, hmetaSealed, hputMeta⟩ :=
        putSealed_acts (m := m.put .keys (keyField save.host) keysValue) hmeta
      obtain ⟨r, m', written, retired, hput, hdid⟩ := putCookies_acts aead save.system
        ((m.put .keys (keyField save.host) keysValue).put .keys (metaField save.host) metaValue)
        save.host save.cookies
      exact ⟨r, m', .bind hputKeys (.bind hputMeta hput),
        .cookies hkeys hmeta hkeysSealed hmetaSealed hdid⟩
    · obtain ⟨e, hrefused⟩ :=
        putSealed_refused (m := m.put .keys (keyField save.host) keysValue) hmeta
      exact ⟨.error e, _, .bind hputKeys (.bind_error hrefused), .keys hkeys hmeta hkeysSealed⟩
  · obtain ⟨e, hrefused⟩ := putSealed_refused (m := m) hkeys
    exact ⟨.error e, m, .bind_error hrefused, .refused hkeys⟩

namespace Saved

variable {save : Save} {r : Except StoreError Unit}

/-- Outside the entries of the host nothing changes. -/
theorem frame (h : Saved aead save m r m') {c : Collection} {k : String}
    (hkeys : ¬(c = .keys ∧ k = keyField save.host)) (hmeta : ¬(c = .keys ∧ k = metaField save.host))
    (hcookies : ∀ j, ¬(c = .cookies ∧ k = cookieKey save.host j)) : m' c k = m c k := by
  cases h with
  | refused => rfl
  | keys => exact put_other m _ hkeys
  | cookies _ _ _ _ hdid => rw [hdid.frame hcookies, put_other _ _ hmeta, put_other _ _ hkeys]

/-- The sessions of other hosts stay as they were. -/
theorem session_other (h : Saved aead save m r m') (hne : host ≠ save.host) :
    m'.session aead host = m.session aead host := by
  refine session_congr (h.frame ?_ ?_ ?_) (h.frame ?_ ?_ ?_) fun i => h.frame ?_ ?_ ?_
  · exact fun heq => hne (keyField_inj heq.2)
  · exact fun heq => keyField_ne_metaField _ _ heq.2
  · exact fun j heq => Collection.noConfusion heq.1
  · exact fun heq => keyField_ne_metaField _ _ heq.2.symm
  · exact fun heq => hne (metaField_inj heq.2)
  · exact fun j heq => Collection.noConfusion heq.1
  · exact fun heq => Collection.noConfusion heq.1
  · exact fun heq => Collection.noConfusion heq.1
  · exact fun j heq => hne (cookieKey_inj heq.2).1

end Saved

/-! ## A store of sessions -/

/-- Every entry opens, and every endpoint is a text. -/
structure Ordered (aead : Aes256Gcm) (m : Contents) : Prop where
  intact : Intact aead m
  endpoints : ∀ host raw, m.entry aead .keys (metaField host) = .ok (some raw) →
    ∃ words, raw = asBytes words

theorem empty_ordered : Ordered aead Contents.empty where
  intact := empty_intact
  endpoints host raw h := by cases h

/-- In a store of sessions reading a session does not fail. -/
theorem Ordered.session (hinv : aead.Inverts) (h : Ordered aead m) (host : String) :
    ∃ found, m.session aead host = .ok found := by
  obtain ⟨value, hvalue⟩ := h.intact.entry hinv .keys (keyField host)
  have hendpoint : ∃ endpoint, m.endpoint aead host = .ok endpoint := by
    obtain ⟨value, hvalue⟩ := h.intact.entry hinv .keys (metaField host)
    unfold Contents.endpoint
    rw [hvalue, ok_bind]
    cases value with
    | none => exact ⟨none, rfl⟩
    | some raw =>
      obtain ⟨words, rfl⟩ := h.endpoints host raw hvalue
      refine ⟨endpointOf words, ?_⟩
      dsimp only
      rw [text_asBytes]
      rfl
  obtain ⟨endpoint, hendpoint⟩ := hendpoint
  have hcookies : ∃ cookies, m.cookies aead host = .ok cookies :=
    scan_ok fun j => h.intact.cookie hinv host j
  obtain ⟨cookies, hcookies⟩ := hcookies
  unfold Contents.session
  rw [hvalue, ok_bind]
  cases value.bind keysOf with
  | none => exact ⟨none, rfl⟩
  | some keys =>
    dsimp only
    rw [hendpoint, ok_bind]
    cases endpoint with
    | none => exact ⟨none, rfl⟩
    | some endpoint =>
      dsimp only
      rw [hcookies]
      exact ⟨_, rfl⟩

/-- The endpoint that a save wrote. -/
theorem endpoint_of_sealed (hinv : aead.Inverts) {words value : String}
    (hsealed : Sealed aead (metaField host) (asBytes words) value)
    (hvalue : m .keys (metaField host) = some value) :
    m.endpoint aead host = .ok (endpointOf words) := by
  unfold Contents.endpoint
  rw [entry_sealed hinv hsealed hvalue, ok_bind]
  dsimp only
  rw [text_asBytes]
  rfl

namespace Saved

variable {save : Save} {r : Except StoreError Unit}

theorem ordered (hinv : aead.Inverts) (h : Saved aead save m r m') (hm : Ordered aead m) :
    Ordered aead m' := by
  cases h with
  | refused => exact hm
  | keys _ _ hsealed =>
    refine ⟨hm.intact.put (.inr ⟨_, hsealed⟩), fun host raw hraw => hm.endpoints host raw ?_⟩
    rw [← hraw]
    exact (entry_congr (put_other m _ fun heq => keyField_ne_metaField _ _ heq.2.symm)).symm
  | cookies _ _ hkeys hmeta hdid =>
    refine ⟨hdid.intact ((hm.intact.put (.inr ⟨_, hkeys⟩)).put (.inr ⟨_, hmeta⟩)), ?_⟩
    intro host raw hraw
    rw [entry_congr (hdid.frame fun j heq => Collection.noConfusion heq.1)] at hraw
    by_cases hhost : host = save.host
    · subst hhost
      rw [entry_sealed hinv hmeta (put_self _ _ _ _)] at hraw
      cases hraw
      exact ⟨_, rfl⟩
    · refine hm.endpoints host raw ?_
      rw [← hraw]
      refine (entry_congr ?_).symm
      rw [put_other _ _ fun heq => hhost (metaField_inj heq.2),
        put_other _ _ fun heq => keyField_ne_metaField _ _ heq.2.symm]

end Saved

/-! ## Saved and resumed -/

/-- A session read after its keys and its endpoint were written has them. -/
theorem gives_of_reads (hinv : aead.Inverts) {save : Save} {m₁ : Contents}
    {keysValue metaValue : String} {r : Except StoreError Unit} {written retired : Nat}
    (hkeys : Sealed aead (keyField save.host) (save.keys.c2s.toList ++ save.keys.s2c.toList)
      keysValue)
    (hmeta : Sealed aead (metaField save.host) (asBytes (metaText save.ntpServer save.ntpPort))
      metaValue)
    (hput : m₁ = (m.put .keys (keyField save.host) keysValue).put .keys (metaField save.host)
      metaValue)
    (hdid : PutCookies aead save.system save.host save.cookies m₁ m' r written retired) :
    (∃ raw, m'.entry aead .keys (keyField save.host) = .ok (some raw) ∧
      keysOf raw = some save.keys) ∧
      m'.endpoint aead save.host = .ok (endpointOf (metaText save.ntpServer save.ntpPort)) := by
  have hframe (k : String) : m' .keys k = m₁ .keys k :=
    hdid.frame fun j heq => Collection.noConfusion heq.1
  constructor
  · have hvalue : m' .keys (keyField save.host) = some keysValue := by
      rw [hframe, hput, put_other _ _ fun heq => keyField_ne_metaField _ _ heq.2, put_self]
    exact ⟨_, entry_sealed hinv hkeys hvalue, keysOf_append save.keys⟩
  · have hvalue : m' .keys (metaField save.host) = some metaValue := by
      rw [hframe, hput, put_self]
    exact endpoint_of_sealed hinv hmeta hvalue

/-- What a save that succeeded leaves to be read. -/
theorem reads_of_putClientSession (hinv : aead.Inverts) {system : StoreSystem} {s s' : Store}
    (hs : Stands s m) {keys : NtsKeys} {cookies : List (List UInt8)} {ntpServer : String}
    {ntpPort : UInt16}
    (hput : (putClientSession aead system host keys cookies ntpServer ntpPort).run s = .ok () s') :
    ∃ m', Stands s' m' ∧
      (∃ raw, m'.entry aead .keys (keyField host) = .ok (some raw) ∧ keysOf raw = some keys) ∧
      m'.endpoint aead host = .ok (endpointOf (metaText ntpServer ntpPort)) ∧
      m'.cookies aead host = .ok ((kept cookies).takeWhile fun cookie => cookie ≠ []) := by
  obtain ⟨r, m', hacts, hsaved⟩ := save_acts aead m
    ⟨host, keys, cookies, ntpServer, ntpPort, system⟩
  obtain ⟨s'', hrun, hs'⟩ := hacts s hs
  rw [hput] at hrun
  cases r with
  | error e => cases hrun
  | ok =>
    cases hrun
    cases hsaved with
    | cookies hkeys hmeta hkeysSealed hmetaSealed hdid =>
      obtain ⟨hof, hendpoint⟩ := gives_of_reads hinv hkeysSealed hmetaSealed rfl hdid
      exact ⟨m', hs', hof, hendpoint, hdid.cookies_eq hinv⟩

/-- On a store in order a save under a willing system succeeds. -/
theorem putClientSession_ok (hinv : aead.Inverts) {system : StoreSystem} {s : Store}
    (hs : Stands s m) (hm : Intact aead m) (hsystem : Willing aead system) (host : String)
    (keys : NtsKeys) (cookies : List (List UInt8)) (ntpServer : String) (ntpPort : UInt16) :
    ∃ s', (putClientSession aead system host keys cookies ntpServer ntpPort).run s = .ok () s' := by
  obtain ⟨r, m', hacts, hsaved⟩ := save_acts aead m
    ⟨host, keys, cookies, ntpServer, ntpPort, system⟩
  obtain ⟨s', hrun, -⟩ := hacts s hs
  cases hsaved with
  | refused hnot => exact absurd (hsystem ..) hnot
  | keys _ hnot => exact absurd (hsystem ..) hnot
  | cookies _ _ hkeys hmeta hdid =>
    obtain rfl := hdid.ok hinv ((hm.put (.inr ⟨_, hkeys⟩)).put (.inr ⟨_, hmeta⟩)) hsystem
    exact ⟨s', hrun⟩

/-- **A session is resumed with its own endpoint exactly if the name of its server is one word.** -/
theorem session_resumed_iff (hinv : aead.Inverts) {system : StoreSystem} {s s' : Store}
    (hs : s.Defined) {keys : NtsKeys} {cookies : List (List UInt8)} {ntpServer : String}
    {ntpPort : UInt16} (hsome : cookies ≠ []) (hcookies : ∀ cookie ∈ cookies, cookie ≠ [])
    (hput : (putClientSession aead system host keys cookies ntpServer ntpPort).run s = .ok () s') :
    (∃ session, sessionNow aead s' host = .ok (some session) ∧ session.keys = keys ∧
      session.ntpServer = ntpServer ∧ session.ntpPort = ntpPort) ↔ OneWord ntpServer := by
  obtain ⟨m', hs', hkeys, hendpoint, hread⟩ :=
    reads_of_putClientSession (m := s.db.registers) hinv ⟨hs, rfl⟩ hput
  rw [sessionNow_eq hs', ← endpointOf_metaText ntpServer ntpPort]
  constructor
  · rintro ⟨session, hsession, -, rfl, rfl⟩
    have hreads := reads_of_session hsession
    rw [hreads.endpoint] at hendpoint
    exact (Except.ok.inj hendpoint).symm
  · intro hword
    rw [hword] at hendpoint
    have hall : (kept cookies).takeWhile (fun cookie => decide (cookie ≠ [])) = kept cookies :=
      List.takeWhile_eq_self_iff.mpr fun cookie hmem =>
        decide_eq_true (hcookies cookie (List.mem_of_mem_take hmem))
    have hkept : kept cookies ≠ [] := by
      intro hnil
      rcases List.take_eq_nil_iff.mp hnil with hzero | hnil
      · cases hzero
      · exact hsome hnil
    rw [hall] at hread
    exact ⟨⟨keys, kept cookies, ntpServer, ntpPort⟩,
      session_of_reads ⟨hkeys, hendpoint, hread, hkept⟩, rfl, rfl, rfl⟩

/-- Keys that are one byte over and over. -/
def plainKeys (b : UInt8) : NtsKeys := ⟨.replicate 32 b, .replicate 32 b⟩

theorem oneWord_s : OneWord "s" := by
  refine ⟨by decide, fun c hc => ?_⟩
  obtain rfl : c = 's' := by simpa using hc
  decide

/-- A session of a server `s`, put in an empty store. -/
theorem session_resumed_iff_s : ∃ s session,
    (putClientSession .checksum StoreSystem.zeros "h" (plainKeys 1) [[3]] "s" 123).run .empty =
      .ok () s ∧ sessionNow .checksum s "h" = .ok (some session) ∧ session.ntpServer = "s" ∧
        session.ntpPort = 123 := by
  obtain ⟨s, hput⟩ := putClientSession_ok Aes256Gcm.checksum_inverts empty_stands empty_intact
    zeros_willing "h" (plainKeys 1) [[3]] "s" 123
  obtain ⟨session, hsession, -, hserver, hport⟩ :=
    (session_resumed_iff Aes256Gcm.checksum_inverts empty_stands.schema (by decide) (by decide)
      hput).mpr oneWord_s
  exact ⟨s, session, hput, hsession, hserver, hport⟩

/-- A server name of two words: the save succeeds, and there is no session to resume. -/
theorem not_session_resumed : ∃ s,
    (putClientSession .checksum StoreSystem.zeros "h" (plainKeys 1) [[3]] "a b" 123).run .empty =
      .ok () s ∧ sessionNow .checksum s "h" = .ok none := by
  obtain ⟨s, hput⟩ := putClientSession_ok Aes256Gcm.checksum_inverts empty_stands empty_intact
    zeros_willing "h" (plainKeys 1) [[3]] "a b" 123
  refine ⟨s, hput, ?_⟩
  obtain ⟨m, hs, ⟨raw, hraw, hkeys⟩, hendpoint, -⟩ :=
    reads_of_putClientSession Aes256Gcm.checksum_inverts empty_stands hput
  have hnone : endpointOf (metaText "a b" 123) = none := by decide
  have hbind : (some raw).bind keysOf = some (plainKeys 1) := hkeys
  rw [hnone] at hendpoint
  rw [sessionNow_eq hs]
  unfold Contents.session
  rw [hraw, ok_bind, hbind]
  dsimp only
  rw [hendpoint]
  rfl

/-! ## No session of two saves -/

/-- Every session that is read comes from one save. -/
def Unmixed (aead : Aes256Gcm) (saves : List Save) (m : Contents) : Prop :=
  ∀ host session, m.session aead host = .ok (some session) →
    ∃ save ∈ saves, save.host = host ∧ save.Gives session

theorem empty_unmixed : Unmixed aead [] Contents.empty := by
  intro host session h
  obtain ⟨raw, hraw, -⟩ := (reads_of_session h).keys
  cases hraw

/-- Where the writing of cookies stopped. -/
theorem stopsAt_of_putCookies {save : Save} {r : Except StoreError Unit} {written retired : Nat}
    (h : PutCookies aead save.system save.host save.cookies m m' r written retired) :
    save.StopsAt aead written where
  le := h.le
  before := h.accepts
  here hlt := by
    obtain ⟨m₁, -, -, ⟨-, -, hshort, hnot⟩ | ⟨hwritten, -⟩⟩ := h.wrote
    · exact hnot
    · omega

/-- Keys and endpoints are written beside the cookies. -/
theorem cookie_put_keys (m : Contents) (key value server : String) (i : Nat) :
    (m.put .keys key value).cookie aead server i = m.cookie aead server i :=
  cookie_congr (put_other m value fun heq => Collection.noConfusion heq.1)

/-- New keys with an old endpoint and old cookies: if one of these was missing, no session. -/
theorem no_session_of_keys {value : String} (hmissing : m.endpoint aead host = .ok none ∨
    m.cookie aead host 0 = .ok none) {session : StoredClientSession} :
    ¬Reads aead (m.put .keys (keyField host) value) host session := by
  intro hreads
  rcases hmissing with hnone | hnone
  · have hendpoint := hreads.endpoint
    unfold Contents.endpoint at hendpoint hnone
    rw [entry_congr (put_other m value fun heq => keyField_ne_metaField _ _ heq.2.symm), hnone]
      at hendpoint
    cases hendpoint
  · have hcookies := hreads.cookies
    have hcookie : (m.put .keys (keyField host) value).cookie aead host 0 = .ok none := by
      rw [cookie_put_keys, hnone]
    unfold Contents.cookies at hcookies
    rw [scan_none hcookie] at hcookies
    exact hreads.some (Except.ok.inj hcookies).symm

/-- **A clean save mixes nothing**: what is read of its host afterwards is what was read before,
nothing, or its own. -/
theorem Saved.unmixed (hinv : aead.Inverts) {save : Save} {saves : List Save}
    {r : Except StoreError Unit} (hm : Ordered aead m) (hclean : save.Clean aead m)
    (hold : Unmixed aead saves m) (h : Saved aead save m r m') :
    Unmixed aead (saves ++ [save]) m' := by
  intro host session hsession
  have hearlier (hread : m.session aead host = .ok (some session)) :
      ∃ save' ∈ saves ++ [save], save'.host = host ∧ save'.Gives session := by
    obtain ⟨save', hmem, hgives⟩ := hold host session hread
    exact ⟨save', List.mem_append_left _ hmem, hgives⟩
  by_cases hhost : host = save.host
  · subst hhost
    have hreads := reads_of_session hsession
    cases h with
    | refused => exact hearlier hsession
    | keys hkeys hmeta =>
      exact absurd hreads (no_session_of_keys (hclean.endpoint hkeys hmeta))
    | @cookies r m' keysValue metaValue written retired hkeys hmeta hkeysSealed hmetaSealed hdid =>
      obtain ⟨⟨raw, hraw, hof⟩, hendpoint⟩ :=
        gives_of_reads hinv hkeysSealed hmetaSealed rfl hdid
      refine ⟨save, List.mem_append_right _ (List.mem_singleton_self save), rfl, ?_, ?_, ?_⟩
      · obtain ⟨raw', hraw', hof'⟩ := hreads.keys
        rw [hraw] at hraw'
        cases hraw'
        rw [hof] at hof'
        exact (Option.some.inj hof').symm
      · rw [hreads.endpoint] at hendpoint
        exact (Except.ok.inj hendpoint).symm
      · -- the endpoint reads back, so the condition is on the cookies
        have hstop := (hclean.cookies hkeys hmeta written (stopsAt_of_putCookies hdid)).resolve_left
          (by rw [hreads.endpoint] at hendpoint; rw [← Except.ok.inj hendpoint]; simp)
        rw [← cookie_put_keys m (keyField save.host) keysValue,
          ← cookie_put_keys _ (metaField save.host) metaValue] at hstop
        have hcookies := hdid.cookies_stop hinv
          ((hm.intact.put (.inr ⟨_, hkeysSealed⟩)).put (.inr ⟨_, hmetaSealed⟩)) hstop
        rw [hreads.cookies] at hcookies
        rw [Except.ok.inj hcookies]
        exact (List.takeWhile_prefix _).trans ((List.take_prefix _ _).trans (List.take_prefix _ _))
  · rw [h.session_other hhost] at hsession
    exact hearlier hsession

/-- **Sessions are never mixed in a run of clean saves**, whatever fails in it: in the store it
comes to, and so in every store it passes through, a host has no session or one whose keys, endpoint
and cookies come from one save. -/
theorem saves_unmixed (hinv : aead.Inverts) {saves : List Save}
    (hclean : Along (Save.step aead) (fun s save => save.Clean aead s.db.registers) .empty saves)
    (host : String) :
    ∃ found, sessionNow aead (saves.foldl (Save.step aead) .empty) host = .ok found ∧
      ∀ session, found = some session → ∃ save ∈ saves, save.host = host ∧ save.Gives session := by
  -- from any store of sessions, with the saves already made
  have hrun (saves : List Save) : ∀ (done : List Save) (s : Store) (m : Contents), Stands s m →
      Ordered aead m → Unmixed aead done m →
      Along (Save.step aead) (fun s save => save.Clean aead s.db.registers) s saves →
      ∃ m', Stands (saves.foldl (Save.step aead) s) m' ∧ Ordered aead m' ∧
        Unmixed aead (done ++ saves) m' := by
    induction saves with
    | nil =>
      intro done s m hs hm hold _
      rw [List.append_nil]
      exact ⟨m, hs, hm, hold⟩
    | cons save saves ih =>
      intro done s m hs hm hold hclean
      obtain ⟨r, m₁, hacts, hsaved⟩ := save_acts aead m save
      have hstep : Stands (Save.step aead s save) m₁ := (hacts.answer_eq hs).2
      obtain ⟨hfirst, hrest⟩ := hclean
      rw [hs.registers] at hfirst
      obtain ⟨m', hs', hm', hunmixed⟩ := ih (done ++ [save]) (Save.step aead s save) m₁ hstep
        (hsaved.ordered hinv hm) (hsaved.unmixed hinv hm hfirst hold) hrest
      rw [List.append_assoc] at hunmixed
      exact ⟨m', hs', hm', hunmixed⟩
  obtain ⟨m, hs, hm, hunmixed⟩ :=
    hrun saves [] .empty .empty empty_stands empty_ordered empty_unmixed hclean
  obtain ⟨found, hfound⟩ := hm.session hinv host
  refine ⟨found, by rw [sessionNow_eq hs, hfound], ?_⟩
  rintro session rfl
  exact hunmixed host session hfound

/-- A save of the host `h`, all of it marked with a byte. -/
def plainSave (b : UInt8) (ntpServer : String) (takes : Collection → String → Bool) : Save :=
  ⟨"h", plainKeys b, [[b]], ntpServer, 123, fun _ _ => some (.replicate 12 0), takes⟩

/-- The first save, which nothing refuses, is read back. -/
theorem plainSave_reads : ∃ m,
    Stands (Save.step .checksum .empty (plainSave 1 "s" fun _ _ => true)) m ∧
      Reads .checksum m "h" ⟨plainKeys 1, [[1]], "s", 123⟩ := by
  have hinv := Aes256Gcm.checksum_inverts
  obtain ⟨s, hput⟩ := putClientSession_ok hinv empty_stands empty_intact zeros_willing "h"
    (plainKeys 1) [[1]] "s" 123
  obtain ⟨m, hs, hkeys, hendpoint, hcookies⟩ := reads_of_putClientSession hinv empty_stands hput
  have hfirst : Save.step .checksum .empty (plainSave 1 "s" fun _ _ => true) = s :=
    congrArg stateOf hput
  rw [(endpointOf_metaText "s" 123).mpr oneWord_s] at hendpoint
  exact ⟨m, hfirst ▸ hs, hkeys, hendpoint, hcookies, List.cons_ne_nil _ _⟩

/-- The second of two saves refused at once: the session is of the first. -/
theorem saves_unmixed_refused :
    sessionNow .checksum ([plainSave 1 "s" fun _ _ => true, plainSave 2 "t" fun _ key =>
      key ≠ keyField "h"].foldl (Save.step .checksum) .empty) "h" =
        .ok (some ⟨plainKeys 1, [[1]], "s", 123⟩) ∧
      (plainSave 1 "s" fun _ _ => true).Gives ⟨plainKeys 1, [[1]], "s", 123⟩ := by
  have hclean : Along (Save.step .checksum) (fun s save => save.Clean .checksum s.db.registers)
      .empty [plainSave 1 "s" fun _ _ => true,
        plainSave 2 "t" fun _ key => key ≠ keyField "h"] := by
    refine ⟨⟨?_, ?_⟩, ⟨?_, ?_⟩, trivial⟩
    · exact fun _ hmeta => absurd ⟨rfl, rfl⟩ hmeta
    · exact fun _ _ _ _ => .inr (.inr (.inr (.inl rfl)))
    · exact fun hkeys => absurd hkeys.2 (by simp [plainSave])
    · exact fun hkeys => absurd hkeys.2 (by simp [plainSave])
  obtain ⟨m, hs, hreads⟩ := plainSave_reads
  obtain ⟨r, m', hacts, hsaved⟩ := save_acts .checksum m
    (plainSave 2 "t" fun _ key => key ≠ keyField "h")
  have hsecond := (hacts.answer_eq hs).2
  have hsame : m' = m := by
    cases hsaved with
    | refused => rfl
    | keys hkeys => exact absurd hkeys.2 (by simp [plainSave])
    | cookies hkeys => exact absurd hkeys.2 (by simp [plainSave])
  have hsession : sessionNow .checksum ([plainSave 1 "s" fun _ _ => true,
      plainSave 2 "t" fun _ key => key ≠ keyField "h"].foldl (Save.step .checksum) .empty) "h" =
        .ok (some ⟨plainKeys 1, [[1]], "s", 123⟩) := by
    rw [List.foldl_cons, List.foldl_cons, List.foldl_nil]
    exact (sessionNow_eq hsecond "h").trans (hsame ▸ session_of_reads hreads)
  refine ⟨hsession, ?_⟩
  obtain ⟨found, hfound, hgives⟩ := saves_unmixed Aes256Gcm.checksum_inverts hclean "h"
  rw [hsession] at hfound
  obtain ⟨save, hmem, -, hof⟩ := hgives _ (Except.ok.inj hfound).symm
  rcases List.mem_pair.mp hmem with rfl | rfl
  · exact hof
  · exact absurd hof.keys (by decide)

/-- The second of two saves refused after its keys: they are read with the endpoint and the cookie
of the first. -/
theorem not_saves_unmixed :
    sessionNow .checksum ([plainSave 1 "s" fun _ _ => true, plainSave 2 "t" fun _ key =>
      key ≠ metaField "h"].foldl (Save.step .checksum) .empty) "h" =
        .ok (some ⟨plainKeys 2, [[1]], "s", 123⟩) ∧
      ∀ save ∈ [plainSave 1 "s" fun _ _ => true, plainSave 2 "t" fun _ key =>
        key ≠ metaField "h"], ¬save.Gives ⟨plainKeys 2, [[1]], "s", 123⟩ := by
  constructor
  · have hinv := Aes256Gcm.checksum_inverts
    obtain ⟨m, hs, hreads⟩ := plainSave_reads
    obtain ⟨r, m', hacts, hsaved⟩ := save_acts .checksum m
      (plainSave 2 "t" fun _ key => key ≠ metaField "h")
    have hsecond := (hacts.answer_eq hs).2
    rw [List.foldl_cons, List.foldl_cons, List.foldl_nil]
    refine (sessionNow_eq hsecond "h").trans ?_
    cases hsaved with
    | refused hnot => exact absurd ⟨rfl, decide_eq_true (keyField_ne_metaField "h" "h")⟩ hnot
    | cookies _ hmeta => exact absurd hmeta.2 (by simp [plainSave])
    | @keys e value _ _ hsealed =>
      refine session_of_reads ⟨?_, ?_, ?_, hreads.some⟩
      · exact ⟨_, entry_sealed hinv hsealed (put_self _ _ _ _), keysOf_append _⟩
      · have hendpoint := hreads.endpoint
        unfold Contents.endpoint at hendpoint ⊢
        rw [entry_congr (put_other m value fun heq => keyField_ne_metaField _ _ heq.2.symm),
          hendpoint]
      · have hcookies := hreads.cookies
        unfold Contents.cookies at hcookies ⊢
        rw [scan_congr fun j _ => cookie_put_keys m _ value "h" (0 + j)]
        exact hcookies
  · intro save hmem hgives
    rcases List.mem_pair.mp hmem with rfl | rfl
    · exact absurd hgives.keys (by decide)
    · exact absurd hgives.cookies (by decide)

end RustyTime.Store
