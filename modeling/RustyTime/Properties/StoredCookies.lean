import Mathlib.Data.List.TakeWhile
import RustyTime.Properties.SealedStore

/-!
# Cookies put and taken

A batch is written entry by entry and its tail retired, so what it leaves is known entry by entry.
Reading goes up to the first entry without a cookie.

* `putCookies_acts`, `getCookies_acts` — writing and reading, on the map
* `cookies_back_iff` — when a batch comes back
* `damaged_costs_one_iff` — when a damaged entry costs one cookie
-/

namespace RustyTime.Store

open Infra.Program Infra.Scan

variable {aead : Aes256Gcm} {system : StoreSystem} {m : Contents}

/-! ## A batch -/

theorem cookieKey_inj {server server' : String} {i j : Nat}
    (h : cookieKey server i = cookieKey server' j) : server = server' ∧ i = j :=
  (compoundKey_inj (by decide) (by decide) h).2

/-- Another entry of a server. -/
theorem cookieKey_ne {server : String} {i j : Nat} (h : i ≠ j) :
    ¬(Collection.cookies = .cookies ∧ cookieKey server i = cookieKey server j) :=
  fun heq => h (cookieKey_inj heq.2).2

/-- From `m` to `m'` the entries of a server from `start` on took the values `written`, and nothing
else changed. -/
structure Wrote (aead : Aes256Gcm) (server : String) (start : Nat) (written : List (List UInt8))
    (m m' : Contents) : Prop where
  values : ∀ j (h : j < written.length), ∃ value,
    m' .cookies (cookieKey server (start + j)) = some value ∧
      Sealed aead (cookieKey server (start + j)) written[j] value
  frame : ∀ c k, (∀ j < written.length, ¬(c = .cookies ∧ k = cookieKey server (start + j))) →
    m' c k = m c k

theorem Wrote.nil (server : String) (start : Nat) (m : Contents) :
    Wrote aead server start [] m m where
  values j h := absurd h (Nat.not_lt_zero j)
  frame _ _ _ := rfl

/-- One entry, and the rest after it. -/
theorem Wrote.cons {server : String} {start : Nat} {cookie : List UInt8}
    {written : List (List UInt8)} {value : String} {m' : Contents}
    (hsealed : Sealed aead (cookieKey server start) cookie value)
    (h : Wrote aead server (start + 1) written (m.put .cookies (cookieKey server start) value) m') :
    Wrote aead server start (cookie :: written) m m' where
  values j hj := by
    cases j with
    | zero =>
      refine ⟨value, ?_, hsealed⟩
      rw [h.frame, Nat.add_zero, put_self]
      exact fun j _ => cookieKey_ne (by omega)
    | succ j =>
      rw [← Nat.add_assoc, Nat.add_right_comm]
      exact h.values j (Nat.lt_of_succ_lt_succ hj)
  frame c k hnot := by
    rw [h.frame, put_other]
    · exact hnot 0 (Nat.succ_pos _)
    · intro j hj
      have hnext := hnot (j + 1) (Nat.succ_lt_succ hj)
      rwa [← Nat.add_assoc, Nat.add_right_comm] at hnext

/-- **The first loop of `put_cookies`** writes the cookies in order, up to the first that is not
accepted. -/
theorem putEach_acts (aead : Aes256Gcm) (system : StoreSystem) (m : Contents) (server : String)
    (start : Nat) (cookies : List (List UInt8)) :
    ∃ n r m', Acts Stands (putEach aead system server start cookies) m r m' ∧
      Wrote aead server start (cookies.take n) m m' ∧
      (∀ j (h : j < cookies.length), j < n →
        Accepts aead system .cookies (cookieKey server (start + j)) cookies[j]) ∧
      (n = cookies.length ∧ r = .ok () ∨ ∃ (h : n < cookies.length) (e : StoreError),
        r = .error e ∧
          ¬Accepts aead system .cookies (cookieKey server (start + n)) cookies[n]) := by
  induction cookies generalizing start m with
  | nil =>
    refine ⟨0, .ok (), m, .pure (), Wrote.nil server start m, ?_, .inl ⟨rfl, rfl⟩⟩
    intro j h
    exact absurd h (Nat.not_lt_zero j)
  | cons cookie cookies ih =>
    by_cases hacc : Accepts aead system .cookies (cookieKey server start) cookie
    · obtain ⟨value, hsealed, hput⟩ := putSealed_acts (m := m) hacc
      obtain ⟨n, r, m', hrest, hwrote, haccepts, hend⟩ :=
        ih (m.put .cookies (cookieKey server start) value) (start + 1)
      refine ⟨n + 1, r, m', .bind hput hrest, .cons hsealed hwrote, ?_, ?_⟩
      · intro j hj hn
        cases j with
        | zero => exact hacc
        | succ j =>
          have h := haccepts j (Nat.lt_of_succ_lt_succ hj) (Nat.lt_of_succ_lt_succ hn)
          rwa [← Nat.add_assoc, Nat.add_right_comm]
      · rcases hend with ⟨hn, hr⟩ | ⟨hn, e, hr, hnot⟩
        · exact .inl ⟨by rw [hn, List.length_cons], hr⟩
        · refine .inr ⟨Nat.succ_lt_succ hn, e, hr, ?_⟩
          rwa [← Nat.add_assoc, Nat.add_right_comm]
    · obtain ⟨e, hrefused⟩ := putSealed_refused (m := m) hacc
      refine ⟨0, .error e, m, .bind_error hrefused, Wrote.nil server start m, ?_, ?_⟩
      · intro j _ h
        exact absurd h (Nat.not_lt_zero j)
      · exact .inr ⟨Nat.succ_pos _, e, rfl, hacc⟩

/-- From `m` to `m'` the first `n` entries of a server from `start` on were retired, and nothing
else changed. -/
structure Swept (server : String) (start n : Nat) (m m' : Contents) : Prop where
  retired : ∀ j < n, m' .cookies (cookieKey server (start + j)) = some ""
  frame : ∀ c k, (∀ j < n, ¬(c = .cookies ∧ k = cookieKey server (start + j))) → m' c k = m c k

theorem Swept.zero (server : String) (start : Nat) (m : Contents) : Swept server start 0 m m where
  retired j h := absurd h (Nat.not_lt_zero j)
  frame _ _ _ := rfl

theorem Swept.succ {server : String} {start n : Nat} {m' : Contents}
    (h : Swept server (start + 1) n (m.put .cookies (cookieKey server start) "") m') :
    Swept server start (n + 1) m m' where
  retired j hj := by
    cases j with
    | zero =>
      rw [h.frame, Nat.add_zero, put_self]
      exact fun j _ => cookieKey_ne (by omega)
    | succ j =>
      rw [← Nat.add_assoc, Nat.add_right_comm]
      exact h.retired j (Nat.lt_of_succ_lt_succ hj)
  frame c k hnot := by
    rw [h.frame, put_other]
    · exact hnot 0 (Nat.succ_pos _)
    · intro j hj
      have hnext := hnot (j + 1) (Nat.succ_lt_succ hj)
      rwa [← Nat.add_assoc, Nat.add_right_comm] at hnext

theorem cookie_congr {m m' : Contents} {server : String} {i : Nat}
    (h : m .cookies (cookieKey server i) = m' .cookies (cookieKey server i)) :
    m.cookie aead server i = m'.cookie aead server i := by
  unfold Contents.cookie
  rw [entry_congr h]

theorem cookie_eq {server : String} {i : Nat} {value : Option (List UInt8)}
    (h : m.entry aead .cookies (cookieKey server i) = .ok value) :
    m.cookie aead server i = .ok (value.bind fun v => if v ≠ [] then some v else none) := by
  unfold Contents.cookie
  rw [h]
  cases value <;> rfl

/-- What an entry holds, and the cookie that makes. -/
inductive CookieCase (aead : Aes256Gcm) (m : Contents) (server : String) (i : Nat) : Prop
  | fails {e : StoreError} : m.entry aead .cookies (cookieKey server i) = .error e →
      m.cookie aead server i = .error e → CookieCase aead m server i
  | absent : m.entry aead .cookies (cookieKey server i) = .ok none →
      m.cookie aead server i = .ok none → CookieCase aead m server i
  | empty : m.entry aead .cookies (cookieKey server i) = .ok (some []) →
      m.cookie aead server i = .ok none → CookieCase aead m server i
  | live {v : List UInt8} : v ≠ [] →
      m.entry aead .cookies (cookieKey server i) = .ok (some v) →
      m.cookie aead server i = .ok (some v) → CookieCase aead m server i

theorem cookie_cases (aead : Aes256Gcm) (m : Contents) (server : String) (i : Nat) :
    CookieCase aead m server i := by
  cases hentry : m.entry aead .cookies (cookieKey server i) with
  | error e =>
    refine .fails hentry ?_
    unfold Contents.cookie
    rw [hentry]
  | ok value =>
    have hcookie := cookie_eq hentry
    cases value with
    | none => exact .absent hentry hcookie
    | some v =>
      by_cases hv : v = []
      · subst hv
        exact .empty hentry hcookie
      · refine .live hv hentry (hcookie.trans ?_)
        exact congrArg Except.ok (if_pos hv)

/-- How the second loop of `put_cookies` ends after `n` tombstones: at an entry without a cookie,
or failing at a damaged entry or at a tombstone the database does not take. -/
def SweepEnds (aead : Aes256Gcm) (system : StoreSystem) (server : String) (left start : Nat)
    (m : Contents) (n : Nat) (r : Except StoreError Unit) : Prop :=
  r = .ok () ∧ (n = left ∨ m.cookie aead server (start + n) = .ok none) ∨
    n < left ∧ ∃ e, r = .error e ∧ (m.cookie aead server (start + n) = .error e ∨
      (∃ v, m.cookie aead server (start + n) = .ok (some v)) ∧
        system.takes .cookies (cookieKey server (start + n)) = false)

/-- **The second loop of `put_cookies`** retires entries, up to the first without a cookie. -/
theorem sweepTail_acts (aead : Aes256Gcm) (system : StoreSystem) (m : Contents) (server : String)
    (left start : Nat) :
    ∃ n r m', Acts Stands (sweepTail aead system server left start) m r m' ∧
      Swept server start n m m' ∧ SweepEnds aead system server left start m n r := by
  induction left generalizing start m with
  | zero => exact ⟨0, .ok (), m, .pure (), .zero server start m, .inl ⟨rfl, .inl rfl⟩⟩
  | succ left ih =>
    have hget := getSealed_acts aead m .cookies (cookieKey server start)
    cases cookie_cases aead m server start with
    | fails hentry hcookie =>
      rw [hentry] at hget
      exact ⟨0, _, m, .bind_error hget, .zero server start m,
        .inr ⟨Nat.succ_pos _, _, rfl, .inl hcookie⟩⟩
    | absent hentry hcookie =>
      rw [hentry] at hget
      exact ⟨0, .ok (), m, .bind hget (.pure ()), .zero server start m, .inl ⟨rfl, .inr hcookie⟩⟩
    | empty hentry hcookie =>
      rw [hentry] at hget
      exact ⟨0, .ok (), m, .bind hget (.pure ()), .zero server start m, .inl ⟨rfl, .inr hcookie⟩⟩
    | @live v hv hentry hcookie =>
      rw [hentry] at hget
      have hloop {r : Except StoreError Unit} {m' : Contents}
          (h : Acts Stands (do
            writeRaw system .cookies (cookieKey server start) ""
            sweepTail aead system server left (start + 1)) m r m') :
          Acts Stands (sweepTail aead system server (left + 1) start) m r m' := by
        refine .bind hget ?_
        show Acts Stands (if v = [] then _ else _) m r m'
        rw [if_neg hv]
        exact h
      cases htakes : system.takes .cookies (cookieKey server start) with
      | false =>
        exact ⟨0, .error .sdk, m, hloop (.bind_error (writeRaw_refused htakes "")),
          .zero server start m, .inr ⟨Nat.succ_pos _, .sdk, rfl, .inr ⟨⟨v, hcookie⟩, htakes⟩⟩⟩
      | true =>
        obtain ⟨n, r, m', hrest, hswept, hend⟩ :=
          ih (m.put .cookies (cookieKey server start) "") (start + 1)
        have hlater : (m.put .cookies (cookieKey server start) "").cookie aead server
            (start + 1 + n) = m.cookie aead server (start + (n + 1)) := by
          rw [← Nat.add_assoc, Nat.add_right_comm]
          exact cookie_congr (put_other m "" (cookieKey_ne (by omega)))
        unfold SweepEnds at hend
        rw [hlater, Nat.add_right_comm, Nat.add_assoc] at hend
        refine ⟨n + 1, r, m', hloop (.bind (writeRaw_acts htakes "") hrest), .succ hswept, ?_⟩
        rcases hend with ⟨hr, hn⟩ | ⟨hn, hr⟩
        · exact .inl ⟨hr, hn.imp (congrArg (· + 1)) id⟩
        · exact .inr ⟨Nat.succ_lt_succ hn, hr⟩

theorem length_kept (batch : List (List UInt8)) :
    (kept batch).length = min batch.length maxCookiesPerServer := by
  unfold kept
  rw [List.length_take, Nat.min_comm]

/-- What `put_cookies` did: `written` cookies of the batch, and, once they are all, `retired`
tombstones after them. -/
structure PutCookies (aead : Aes256Gcm) (system : StoreSystem) (server : String)
    (batch : List (List UInt8)) (m m' : Contents) (r : Except StoreError Unit)
    (written retired : Nat) : Prop where
  le : written ≤ (kept batch).length
  accepts : ∀ j (h : j < (kept batch).length), j < written →
    Accepts aead system .cookies (cookieKey server j) (kept batch)[j]
  wrote : ∃ m₁, Wrote aead server 0 ((kept batch).take written) m m₁ ∧
    Swept server (kept batch).length retired m₁ m' ∧
    (retired = 0 ∧ (∃ e, r = .error e) ∧ (∃ h : written < (kept batch).length,
        ¬Accepts aead system .cookies (cookieKey server written) (kept batch)[written]) ∨
      written = (kept batch).length ∧ SweepEnds aead system server
        (maxCookiesPerServer - (kept batch).length) (kept batch).length m₁ retired r)

/-- **What `put_cookies` does.** -/
theorem putCookies_acts (aead : Aes256Gcm) (system : StoreSystem) (m : Contents) (server : String)
    (batch : List (List UInt8)) :
    ∃ r m' written retired, Acts Stands (putCookies aead system server batch) m r m' ∧
      PutCookies aead system server batch m m' r written retired := by
  have hkept : batch.take (min batch.length maxCookiesPerServer) = kept batch := by
    rw [Nat.min_comm]
    exact List.take_eq_take_min.symm
  obtain ⟨n, r, m₁, hput, hwrote, haccepts, hend⟩ :=
    putEach_acts aead system m server 0 (kept batch)
  simp only [Nat.zero_add] at haccepts hend
  unfold putCookies
  dsimp only
  rw [hkept, ← length_kept]
  rcases hend with ⟨hn, hr⟩ | ⟨hn, e, hr, hnot⟩
  · obtain ⟨k, r', m', hsweep, hswept, hends⟩ := sweepTail_acts aead system m₁ server
      (maxCookiesPerServer - (kept batch).length) (kept batch).length
    rw [hr] at hput
    exact ⟨r', m', n, k, .bind hput hsweep,
      ⟨hn.le, haccepts, m₁, hwrote, hswept, .inr ⟨hn, hends⟩⟩⟩
  · rw [hr] at hput
    exact ⟨.error e, m₁, n, 0, .bind_error hput,
      ⟨hn.le, haccepts, m₁, hwrote, .zero _ _ _, .inl ⟨rfl, ⟨e, rfl⟩, hn, hnot⟩⟩⟩

namespace PutCookies

variable {server : String} {batch : List (List UInt8)} {m' : Contents}
  {r : Except StoreError Unit} {written retired : Nat}

/-- Nothing outside the entries of the server changes. -/
theorem frame (h : PutCookies aead system server batch m m' r written retired)
    {c : Collection} {k : String} (hne : ∀ j, ¬(c = .cookies ∧ k = cookieKey server j)) :
    m' c k = m c k := by
  obtain ⟨m₁, hwrote, hswept, -⟩ := h.wrote
  rw [hswept.frame c k fun j _ => hne _, hwrote.frame c k fun j _ => hne _]

/-- The cookies of other servers stay as they were. -/
theorem cookies_other (h : PutCookies aead system server batch m m' r written retired)
    {other : String} (hne : other ≠ server) : m'.cookies aead other = m.cookies aead other := by
  refine scan_congr fun j _ => cookie_congr (h.frame ?_)
  rintro i ⟨-, hkey⟩
  exact hne (cookieKey_inj hkey).1

/-- An entry written holds its cookie, if that is not empty. -/
theorem cookie_written (hinv : aead.Inverts)
    (h : PutCookies aead system server batch m m' r written retired) {j : Nat}
    (hj : j < (kept batch).length) (hlt : j < written) : m'.cookie aead server j =
      .ok (if (kept batch)[j] ≠ [] then some (kept batch)[j] else none) := by
  obtain ⟨m₁, hwrote, hswept, -⟩ := h.wrote
  have hlen : j < ((kept batch).take written).length := by
    rw [List.length_take]
    omega
  obtain ⟨value, hvalue, hsealed⟩ := hwrote.values j hlen
  rw [Nat.zero_add, List.getElem_take] at hsealed
  rw [Nat.zero_add] at hvalue
  have hkeep : m' .cookies (cookieKey server j) = m₁ .cookies (cookieKey server j) :=
    hswept.frame _ _ fun i _ => cookieKey_ne (by omega)
  exact cookie_eq (entry_sealed hinv hsealed (hkeep.trans hvalue))

/-- Where all cookies were written and nothing failed, none is left behind them. -/
theorem cookie_end (h : PutCookies aead system server batch m m' (.ok ()) written retired)
    (hlt : (kept batch).length < maxCookiesPerServer) :
    written = (kept batch).length ∧ m'.cookie aead server (kept batch).length = .ok none := by
  obtain ⟨m₁, -, hswept, hend⟩ := h.wrote
  rcases hend with ⟨-, ⟨e, he⟩, -⟩ | ⟨hwritten, hend⟩
  · cases he
  refine ⟨hwritten, ?_⟩
  rcases Nat.eq_zero_or_pos retired with rfl | hpos
  · -- the loop ended at once
    rcases hend with ⟨-, hzero | hnone⟩ | ⟨-, e, he, -⟩
    · omega
    · rw [Nat.add_zero] at hnone
      rw [← hnone]
      exact cookie_congr (hswept.frame _ _ fun j hj => absurd hj (Nat.not_lt_zero j))
    · cases he
  · have hretired := hswept.retired 0 hpos
    rw [Nat.add_zero] at hretired
    exact cookie_eq (entry_retired hretired)

/-- **After a batch is put the server has its cookies**, up to an empty one. -/
theorem cookies_eq (hinv : aead.Inverts)
    (h : PutCookies aead system server batch m m' (.ok ()) written retired) :
    m'.cookies aead server = .ok ((kept batch).takeWhile fun cookie => cookie ≠ []) := by
  have hle : (kept batch).length ≤ maxCookiesPerServer := by
    rw [length_kept]
    exact Nat.min_le_right _ _
  have hwritten : written = (kept batch).length := by
    obtain ⟨m₁, -, -, ⟨-, ⟨e, he⟩, -⟩ | ⟨hwritten, -⟩⟩ := h.wrote
    · cases he
    · exact hwritten
  refine scan_takeWhile hle (fun j hj => ?_) fun _ hlt => ?_
  · rw [Nat.zero_add, h.cookie_written hinv hj (by rw [hwritten]; exact hj)]
    simp
  · rw [Nat.zero_add]
    exact (h.cookie_end hlt).2

end PutCookies

/-! ## Reading a batch -/

theorem getCookiesFrom_acts (aead : Aes256Gcm) (m : Contents) (server : String) (left i : Nat)
    (out : List (List UInt8)) :
    Acts Stands (getCookiesFrom aead server left i out) m
      ((scan (m.cookie aead server) left i).map (out ++ ·)) m := by
  induction left generalizing i out with
  | zero =>
    rw [scan]
    show Acts Stands (pure out) m (.ok (out ++ [])) m
    rw [List.append_nil]
    exact .pure out
  | succ left ih =>
    have hget := getSealed_acts aead m .cookies (cookieKey server i)
    have hend : Acts Stands (pure out : StoreM _) m
        (Except.map (out ++ ·) (Except.ok (ε := StoreError) [])) m := by
      show Acts Stands (pure out) m (.ok (out ++ [])) m
      rw [List.append_nil]
      exact .pure out
    unfold scan
    cases cookie_cases aead m server i with
    | fails hentry hcookie =>
      rw [hentry] at hget
      rw [hcookie]
      exact .bind_error hget
    | absent hentry hcookie =>
      rw [hentry] at hget
      rw [hcookie]
      exact .bind hget hend
    | empty hentry hcookie =>
      rw [hentry] at hget
      rw [hcookie]
      exact .bind hget hend
    | @live v hv hentry hcookie =>
      rw [hentry] at hget
      rw [hcookie]
      refine .bind hget ?_
      show Acts Stands (if v = [] then _ else _) m _ m
      rw [if_neg hv]
      have hrest := ih (i + 1) (out ++ [v])
      cases hscan : scan (m.cookie aead server) left (i + 1) with
      | error e =>
        rw [hscan] at hrest
        exact hrest
      | ok cookies =>
        rw [hscan] at hrest
        have hout := List.append_cons out v cookies
        show Acts Stands _ m (.ok (out ++ v :: cookies)) m
        rw [hout]
        exact hrest

/-- **`get_cookies` reads the cookies of the map** and changes nothing in it. -/
theorem getCookies_acts (aead : Aes256Gcm) (m : Contents) (server : String) :
    Acts Stands (getCookies aead server) m (m.cookies aead server) m := by
  have h := getCookiesFrom_acts aead m server maxCookiesPerServer 0 []
  unfold getCookies Contents.cookies
  cases hscan : scan (m.cookie aead server) maxCookiesPerServer 0 with
  | error e =>
    rw [hscan] at h
    exact h
  | ok cookies =>
    rw [hscan] at h
    exact h

theorem cookiesNow_eq {s : Store} (h : Stands s m) (server : String) :
    cookiesNow aead s server = m.cookies aead server :=
  ((getCookies_acts aead m server).answer_eq h).1

/-! ## Cookies in order -/

theorem Intact.cookie (hinv : aead.Inverts) (h : Intact aead m) (server : String) (i : Nat) :
    ∃ value, m.cookie aead server i = .ok value := by
  obtain ⟨value, hvalue⟩ := h.entry hinv .cookies (cookieKey server i)
  exact ⟨_, cookie_eq hvalue⟩

theorem Wrote.intact {server : String} {start : Nat} {written : List (List UInt8)} {m' : Contents}
    (h : Wrote aead server start written m m') (hm : Intact aead m) : Intact aead m' := by
  intro c k v hv
  by_cases hkey : ∃ j < written.length, c = .cookies ∧ k = cookieKey server (start + j)
  · obtain ⟨j, hj, rfl, rfl⟩ := hkey
    obtain ⟨value, hvalue, hsealed⟩ := h.values j hj
    rw [hvalue] at hv
    cases hv
    exact .inr ⟨_, hsealed⟩
  · rw [h.frame c k fun j hj heq => hkey ⟨j, hj, heq⟩] at hv
    exact hm c k v hv

theorem Swept.intact {server : String} {start n : Nat} {m' : Contents}
    (h : Swept server start n m m') (hm : Intact aead m) : Intact aead m' := by
  intro c k v hv
  by_cases hkey : ∃ j < n, c = .cookies ∧ k = cookieKey server (start + j)
  · obtain ⟨j, hj, rfl, rfl⟩ := hkey
    rw [h.retired j hj] at hv
    cases hv
    exact .inl rfl
  · rw [h.frame c k fun j hj heq => hkey ⟨j, hj, heq⟩] at hv
    exact hm c k v hv

theorem PutCookies.intact {server : String} {batch : List (List UInt8)} {m' : Contents}
    {r : Except StoreError Unit} {written retired : Nat}
    (h : PutCookies aead system server batch m m' r written retired) (hm : Intact aead m) :
    Intact aead m' := by
  obtain ⟨m₁, hwrote, hswept, -⟩ := h.wrote
  exact hswept.intact (hwrote.intact hm)

/-- The entry where the writing stopped, if no tombstone was put there, is as it was. -/
theorem PutCookies.cookie_stop {server : String} {batch : List (List UInt8)} {m' : Contents}
    {r : Except StoreError Unit} {written : Nat}
    (h : PutCookies aead system server batch m m' r written 0) :
    m'.cookie aead server written = m.cookie aead server written := by
  obtain ⟨m₁, hwrote, hswept, -⟩ := h.wrote
  refine cookie_congr ?_
  rw [hswept.frame _ _ fun j hj => absurd hj (Nat.not_lt_zero j), hwrote.frame]
  intro j hj
  rw [List.length_take] at hj
  exact cookieKey_ne (by omega)

/-- **Where nothing is left to go on with, a server has the cookies that were written**, up to an
empty one. -/
theorem PutCookies.cookies_stop (hinv : aead.Inverts) (hm : Intact aead m) {server : String}
    {batch : List (List UInt8)} {m' : Contents} {r : Except StoreError Unit}
    {written retired : Nat} (h : PutCookies aead system server batch m m' r written retired)
    (hstop : [] ∈ (kept batch).take written ∨ written = maxCookiesPerServer ∨
      m.cookie aead server written = .ok none ∨
      written = (kept batch).length ∧ system.takes .cookies (cookieKey server written) = true) :
    m'.cookies aead server =
      .ok (((kept batch).take written).takeWhile fun cookie => cookie ≠ []) := by
  have hlen : ((kept batch).take written).length = written := List.length_take_of_le h.le
  have hkept : (kept batch).length ≤ maxCookiesPerServer := by
    rw [length_kept]
    exact Nat.min_le_right _ _
  have hle := h.le
  refine scan_takeWhile (by omega) (fun j hj => ?_) fun hall hlt => ?_
  · rw [hlen] at hj
    rw [Nat.zero_add, h.cookie_written hinv (by omega) hj, List.getElem_take]
    simp
  rw [hlen] at hlt ⊢
  rw [Nat.zero_add]
  obtain ⟨m₁, hwrote, hswept, hend⟩ := h.wrote
  rcases Nat.eq_zero_or_pos retired with rfl | hpos
  · rw [h.cookie_stop]
    rcases hstop with hempty | hfull | hnone | ⟨hwritten, htakes⟩
    · exact absurd rfl (of_decide_eq_true (hall [] hempty))
    · omega
    · exact hnone
    · -- no tombstone was needed: the database would have taken one
      have hold : m₁.cookie aead server written = m.cookie aead server written := by
        rw [← h.cookie_stop]
        exact (cookie_congr (hswept.frame _ _ fun j hj => absurd hj (Nat.not_lt_zero j))).symm
      rcases hend with ⟨-, -, hshort, -⟩ | ⟨-, hend⟩
      · omega
      · rw [← hwritten] at hend
        rcases hend with ⟨-, hzero | hnone⟩ | ⟨-, e, -, hfail | ⟨-, hrefused⟩⟩
        · omega
        · rw [← hold]
          exact hnone
        · obtain ⟨value, hvalue⟩ := (hwrote.intact hm).cookie hinv server (written + 0)
          rw [hvalue] at hfail
          cases hfail
        · rw [Nat.add_zero, htakes] at hrefused
          cases hrefused
  · rcases hend with ⟨hzero, -⟩ | ⟨hwritten, -⟩
    · omega
    · have hretired := hswept.retired 0 hpos
      rw [Nat.add_zero, ← hwritten] at hretired
      exact cookie_eq (entry_retired hretired)

/-- Nothing fails on a store in order under a willing system. -/
theorem PutCookies.ok (hinv : aead.Inverts) (hm : Intact aead m) (hsystem : Willing aead system)
    {server : String} {batch : List (List UInt8)} {m' : Contents} {r : Except StoreError Unit}
    {written retired : Nat} (h : PutCookies aead system server batch m m' r written retired) :
    r = .ok () := by
  obtain ⟨m₁, hwrote, -, ⟨-, -, hlt, hnot⟩ | ⟨-, hend⟩⟩ := h.wrote
  · exact absurd (hsystem ..) hnot
  · rcases hend with ⟨hr, -⟩ | ⟨-, e, -, hfail | ⟨-, hrefused⟩⟩
    · exact hr
    · obtain ⟨value, hvalue⟩ := (hwrote.intact hm).cookie hinv server
        ((kept batch).length + retired)
      rw [hvalue] at hfail
      cases hfail
    · have htakes := (hsystem .cookies (cookieKey server ((kept batch).length + retired)) []).2
      rw [hrefused] at htakes
      cases htakes

theorem putCookies_ok (hinv : aead.Inverts) {s : Store} (hs : Stands s m) (hm : Intact aead m)
    (hsystem : Willing aead system) (server : String) (batch : List (List UInt8)) :
    ∃ s' m', (putCookies aead system server batch).run s = .ok () s' ∧ Stands s' m' ∧
      m'.cookies aead server = .ok ((kept batch).takeWhile fun cookie => cookie ≠ []) := by
  obtain ⟨r, m', written, retired, hacts, hdid⟩ := putCookies_acts aead system m server
    batch
  obtain ⟨s', hrun, hs'⟩ := hacts s hs
  obtain rfl := hdid.ok hinv hm hsystem
  exact ⟨s', m', hrun, hs', hdid.cookies_eq hinv⟩

/-! ## Put and taken -/

/-- **Cookies come back as they were put, unless one of them is empty**: an empty cookie is read as
a tombstone, and it and those after it are lost. -/
theorem cookies_back_iff (hinv : aead.Inverts) {s s' : Store} (hs : s.Defined) {server : String}
    {batch : List (List UInt8)} (hput : (putCookies aead system server batch).run s = .ok () s') :
    (cookiesNow aead s' server = .ok (batch.take 64) ∧
      ∀ other, other ≠ server → cookiesNow aead s' other = cookiesNow aead s other) ↔
        ∀ cookie ∈ batch.take 64, cookie ≠ [] := by
  have hstands : Stands s s.db.registers := ⟨hs, rfl⟩
  obtain ⟨r, m', written, retired, hacts, hdid⟩ := putCookies_acts aead system
    s.db.registers server batch
  obtain ⟨s'', hrun, hstands'⟩ := hacts s hstands
  rw [hput] at hrun
  cases r with
  | error e => cases hrun
  | ok =>
    cases hrun
    rw [cookiesNow_eq hstands', hdid.cookies_eq hinv]
    have hothers : ∀ other, other ≠ server →
        cookiesNow aead s' other = cookiesNow aead s other := by
      intro other hne
      rw [cookiesNow_eq hstands', cookiesNow_eq hstands, hdid.cookies_other hne]
    constructor
    · rintro ⟨hback, -⟩ cookie hcookie
      have hall := List.takeWhile_eq_self_iff.mp (Except.ok.inj hback)
      exact of_decide_eq_true (hall cookie hcookie)
    · intro hne
      refine ⟨congrArg Except.ok (List.takeWhile_eq_self_iff.mpr fun cookie hcookie => ?_), hothers⟩
      exact decide_eq_true (hne cookie hcookie)

theorem cookies_back_iff_two : ∃ s,
    (putCookies .checksum StoreSystem.zeros "a" [[1], [2]]).run .empty = .ok () s ∧
      cookiesNow .checksum s "a" = .ok [[1], [2]] := by
  obtain ⟨s, m, hrun, -, -⟩ := putCookies_ok Aes256Gcm.checksum_inverts empty_stands empty_intact
    zeros_willing "a" [[1], [2]]
  exact ⟨s, hrun, ((cookies_back_iff Aes256Gcm.checksum_inverts empty_stands.schema hrun).mpr
    (by decide)).1⟩

/-- A cookie of no bytes hides the one after it. -/
theorem not_cookies_back : ∃ s,
    (putCookies .checksum StoreSystem.zeros "a" [[1], [], [2]]).run .empty = .ok () s ∧
      cookiesNow .checksum s "a" = .ok [[1]] := by
  obtain ⟨s, m, hrun, hs, hcookies⟩ := putCookies_ok Aes256Gcm.checksum_inverts empty_stands
    empty_intact zeros_willing "a" [[1], [], [2]]
  refine ⟨s, hrun, ?_⟩
  rw [cookiesNow_eq hs, hcookies]
  rfl

/-! ## A damaged entry -/

theorem damage_stands {s : Store} (h : Stands s m) (collection : Collection) (key value : String) :
    Stands (s.damage collection key value) (m.put collection key value) :=
  ⟨h.schema, by rw [← h.registers]; rfl⟩

/-- A list without one element is the list up to it only if it is the last. -/
theorem take_eq_eraseIdx {α : Type} {xs : List α} {i : Nat} (h : i < xs.length) :
    xs.take i = xs.eraseIdx i ↔ i + 1 = xs.length := by
  rw [List.eraseIdx_eq_take_drop_succ, List.self_eq_append_right, List.drop_eq_nil_iff]
  omega

/-- What is read of a batch with a damaged entry: the cookies before a tombstone, and nothing if
the value does not open. -/
theorem cookiesNow_damage {s : Store} (hs : s.Defined) {server : String}
    {batch : List (List UInt8)} (hbatch : cookiesNow aead s server = .ok batch) {i : Nat}
    (hi : i < batch.length) {value : String} {e : StoreError}
    (hvalue : openValue aead value (asBytes (cookieKey server i)) = .error e) :
    cookiesNow aead (s.damage .cookies (cookieKey server i) value) server =
      if value = "" then .ok (batch.take i) else .error e := by
  have hstands : Stands s s.db.registers := ⟨hs, rfl⟩
  rw [cookiesNow_eq hstands] at hbatch
  rw [cookiesNow_eq (damage_stands hstands _ _ _)]
  have hholds := scan_eq_ok.mp hbatch
  have hregister := put_self s.db.registers .cookies (cookieKey server i) value
  -- the entries before it are as they were
  have hbefore (j : Nat) (hj : j < i) (hlen : j < batch.length) :
      (Contents.put s.db.registers .cookies (cookieKey server i) value).cookie aead server (0 + j) =
        .ok (some batch[j]) := by
    rw [← hholds.values j hlen]
    exact cookie_congr (put_other _ value (cookieKey_ne (by omega)))
  split
  · next hempty =>
    subst hempty
    have hlen : (batch.take i).length = i := List.length_take_of_le hi.le
    refine scan_of_holds ⟨?_, fun j hj => ?_, fun _ => ?_⟩
    · have := hholds.fits
      omega
    · rw [hlen] at hj
      rw [List.getElem_take]
      exact hbefore j hj (hj.trans hi)
    · rw [hlen, Nat.zero_add]
      exact cookie_eq (entry_retired hregister)
  · next hempty =>
    have hfail : (Contents.put s.db.registers .cookies (cookieKey server i) value).cookie aead
        server (0 + i) = .error e := by
      unfold Contents.cookie Contents.entry
      rw [Nat.zero_add, hregister]
      dsimp only
      rw [if_neg hempty, hvalue]
    exact scan_error (hi.trans_le hholds.fits) (fun j hj => ⟨_, hbefore j hj (hj.trans hi)⟩) hfail

/-- **A damaged entry costs more than one cookie, unless it is the last and damaged into a
tombstone**: the reader gives up at a value that does not open, and stops at an empty one. -/
theorem damaged_costs_one_iff {s : Store} (hs : s.Defined) {server : String}
    {batch : List (List UInt8)} (hbatch : cookiesNow aead s server = .ok batch) {i : Nat}
    (hi : i < batch.length) {value : String} {e : StoreError}
    (hvalue : openValue aead value (asBytes (cookieKey server i)) = .error e) :
    cookiesNow aead (s.damage .cookies (cookieKey server i) value) server =
      .ok (batch.eraseIdx i) ↔ value = "" ∧ i + 1 = batch.length := by
  rw [cookiesNow_damage hs hbatch hi hvalue]
  split
  · next hempty =>
    rw [Except.ok.injEq, take_eq_eraseIdx hi]
    exact (and_iff_right hempty).symm
  · next hempty =>
    constructor
    · intro h
      cases h
    · rintro ⟨h, -⟩
      exact absurd h hempty

/-- A store with two cookies. -/
theorem exists_two_cookies : ∃ s : Store, s.Defined ∧
    cookiesNow .checksum s "a" = .ok [[1], [2]] := by
  obtain ⟨s, m, -, hs, hcookies⟩ := putCookies_ok Aes256Gcm.checksum_inverts empty_stands
    empty_intact zeros_willing "a" [[1], [2]]
  refine ⟨s, hs.defined, ?_⟩
  rw [cookiesNow_eq hs, hcookies]
  rfl

/-- The last of two cookies turned into a tombstone. -/
theorem damaged_costs_one_iff_last : ∃ s : Store,
    cookiesNow .checksum s "a" = .ok [[1], [2]] ∧
      cookiesNow .checksum (s.damage .cookies (cookieKey "a" 1) "") "a" = .ok [[1]] := by
  obtain ⟨s, hs, hbatch⟩ := exists_two_cookies
  exact ⟨s, hbatch, (damaged_costs_one_iff hs hbatch (by decide : 1 < 2) rfl).mpr ⟨rfl, rfl⟩⟩

/-- The first of two cookies damaged into a text that is not hexadecimal: nothing is read. -/
theorem not_damaged_costs_one : ∃ s : Store,
    cookiesNow .checksum s "a" = .ok [[1], [2]] ∧
      openValue .checksum "zz" (asBytes (cookieKey "a" 0)) = .error (.corrupt "value is not hex") ∧
      cookiesNow .checksum (s.damage .cookies (cookieKey "a" 0) "zz") "a" =
        .error (.corrupt "value is not hex") := by
  obtain ⟨s, hs, hbatch⟩ := exists_two_cookies
  have hvalue : openValue .checksum "zz" (asBytes (cookieKey "a" 0)) =
      .error (.corrupt "value is not hex") := rfl
  refine ⟨s, hbatch, hvalue, ?_⟩
  rw [cookiesNow_damage hs hbatch (by decide : 0 < 2) hvalue]
  rfl

end RustyTime.Store
