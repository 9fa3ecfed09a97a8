import RustyTime.Properties.Cookie

/-!
# Cookies across key rotations

A cookie is minted under the newest key and redeemed under the oldest key with its id. While no
two keys of the ring share an id these are one key, as long as it is retained.

* `keys_rotateAll` — a ring holds the last keys of its history
* `redeem_named`, `redeem_unnamed` — what a cookie comes to
* `redeem_after_rotations_iff` — when a cookie lives exactly as long as its key
-/

namespace RustyTime

/-! ## What a ring retains -/

namespace KeyRing

/-- One `rotate_in` after another. -/
def rotateAll (ring : KeyRing) (later : List MasterKey) : KeyRing := later.foldl rotateIn ring

@[simp] theorem rotateAll_nil (ring : KeyRing) : ring.rotateAll [] = ring := rfl

@[simp] theorem rotateAll_cons (ring : KeyRing) (key : MasterKey) (later : List MasterKey) :
    ring.rotateAll (key :: later) = (ring.rotateIn key).rotateAll later := rfl

theorem rotateAll_append (ring : KeyRing) (first later : List MasterKey) :
    ring.rotateAll (first ++ later) = (ring.rotateAll first).rotateAll later :=
  List.foldl_append

@[simp] theorem maxRetained_rotateIn (ring : KeyRing) (key : MasterKey) :
    (ring.rotateIn key).maxRetained = ring.maxRetained := rfl

@[simp] theorem maxRetained_rotateAll (ring : KeyRing) (later : List MasterKey) :
    (ring.rotateAll later).maxRetained = ring.maxRetained := by
  induction later generalizing ring with
  | nil => rfl
  | cons key later ih => simp [ih]

theorem length_rotateIn (ring : KeyRing) (key : MasterKey) :
    (ring.rotateIn key).keys.length ≤ ring.maxRetained := by
  simp only [rotateIn, List.length_drop, List.length_append, List.length_singleton]
  omega

/-- **A ring holds the last `max_retained` keys of its history.** -/
theorem keys_rotateAll {ring : KeyRing} (h : ring.keys.length ≤ ring.maxRetained)
    (later : List MasterKey) :
    (ring.rotateAll later).keys =
      (ring.keys ++ later).drop (ring.keys.length + later.length - ring.maxRetained) := by
  induction later generalizing ring with
  | nil => simp [Nat.sub_eq_zero_of_le h]
  | cons key later ih =>
    have hsplit : ring.keys ++ key :: later = (ring.keys ++ [key]) ++ later := by simp
    rw [rotateAll_cons, ih (length_rotateIn ring key), maxRetained_rotateIn, hsplit]
    by_cases hfull : ring.keys.length + 1 ≤ ring.maxRetained
    · have hkeep : (ring.rotateIn key).keys = ring.keys ++ [key] := by
        simp [rotateIn, Nat.sub_eq_zero_of_le hfull]
      rw [hkeep]
      simp [Nat.add_assoc, Nat.add_comm 1]
    · -- the ring is full, and the oldest key goes
      have hone : ring.keys.length + 1 - ring.maxRetained = 1 := by omega
      have hshift : (ring.rotateIn key).keys ++ later = ((ring.keys ++ [key]) ++ later).drop 1 := by
        simp only [rotateIn, List.length_append, List.length_singleton, hone]
        exact (List.drop_append_of_le_length (by simp)).symm
      rw [hshift, List.drop_drop]
      congr 1
      simp [rotateIn]
      omega

theorem keys_new_rotateAll (maxRetained : Nat) (history : List MasterKey) :
    ((new maxRetained).rotateAll history).keys =
      history.drop (history.length - max maxRetained 1) := by
  rw [keys_rotateAll (by simp [new])]
  simp [new]

/-- The key a cookie names is, byte for byte, the key it was sealed under. -/
def Names (ring : KeyRing) (master : MasterKey) : Prop :=
  ∃ key, ring.byId master.id = some key ∧ key.key = master.key

/-- The last key rotated in mints. -/
theorem current_rotateAll (maxRetained : Nat) (history : List MasterKey) (master : MasterKey) :
    ((new maxRetained).rotateAll (history ++ [master])).current = some master := by
  unfold current
  rw [keys_new_rotateAll, List.drop_append_of_le_length (by simp)]
  exact List.getLast?_concat

end KeyRing

/-! ## What a cookie comes to -/

namespace Cookie

variable {aead : Aead} {ring : KeyRing} {master : MasterKey} {keys : NtsKeys}
  {nonce sealed : List UInt8}

/-- A minted cookie gives its keys back where its key is named, and is refused elsewhere. -/
theorem redeem_iff_names (hideal : aead.Ideal)
    (hsep : aead.Separates (master.key :: ring.keys.map MasterKey.key))
    (hnonce : nonce.length = cookieNonceLen)
    (h : aead.encrypt master.key [header master nonce] (payload keys) = some sealed) :
    (redeem aead ring (header master nonce ++ sealed) = .ok keys ↔ ring.Names master) ∧
      ((∃ e, redeem aead ring (header master nonce ++ sealed) = .error e) ↔
        ¬ring.Names master) := by
  by_cases hnames : ring.Names master
  · obtain ⟨key, hbyId, hkey⟩ := hnames
    have hok := redeem_named hideal hbyId hkey hnonce h
    have hnamed : ring.Names master := ⟨key, hbyId, hkey⟩
    simp [hok, hnamed]
  · have herror : ∃ e, redeem aead ring (header master nonce ++ sealed) = .error e := by
      apply redeem_unnamed hnonce (length_sealed hideal.tagged h)
      intro key hbyId
      have hne : master.key ≠ key.key := by
        intro heq
        exact hnames ⟨key, hbyId, heq.symm⟩
      have hmem : key ∈ ring.keys := List.mem_of_find?_eq_some hbyId
      exact hsep master.key List.mem_cons_self key.key
        (List.mem_cons_of_mem _ (List.mem_map_of_mem hmem)) hne _ _ _ h
    obtain ⟨e, he⟩ := herror
    simp [he, hnames]

/-- A ring that does not name its newest key refuses the cookies it mints. -/
theorem redeem_mint_of_not_names (hideal : aead.Ideal)
    (hsep : aead.Separates (master.key :: ring.keys.map MasterKey.key))
    (hcurrent : ring.current = some master) (h : ¬ring.Names master) (keys : NtsKeys)
    (nonce : Vector UInt8 16) :
    ∃ cookie, mint aead ring keys nonce = .ok cookie ∧
      ∃ e, redeem aead ring cookie = .error e := by
  obtain ⟨sealed, hsealed⟩ := Option.isSome_iff_exists.mp
    (hideal.seals master.key [header master nonce.toList] (payload keys))
  refine ⟨header master nonce.toList ++ sealed, ?_, ?_⟩
  · simp [mint, hcurrent, hsealed]
  · exact (redeem_iff_names hideal hsep (by simp [cookieNonceLen]) hsealed).2.mpr h

end Cookie

theorem Aead.Separates.mono {aead : Aead} {keys fewer : List (Vector UInt8 32)}
    (h : aead.Separates keys) (hsub : fewer ⊆ keys) : aead.Separates fewer := by
  intro key hkey other hother
  exact h key (hsub hkey) other (hsub hother)

/-- **When a cookie lives as long as its key.** Minted under the newest key and redeemed after
`later` rotations, a cookie gives its keys back during the retention and is refused after it,
if and only if the first retained key with its id is its own key exactly during the retention. -/
theorem redeem_after_rotations_iff {aead : Aead} (hideal : aead.Ideal) (maxRetained : Nat)
    (history : List MasterKey) (master : MasterKey) (later : List MasterKey)
    (hsep : aead.Separates ((history ++ [master] ++ later).map MasterKey.key)) (keys : NtsKeys)
    (nonce : Vector UInt8 16) :
    ∃ cookie, Cookie.mint aead ((KeyRing.new maxRetained).rotateAll (history ++ [master])) keys
        nonce = .ok cookie ∧
      ((((later.length < max maxRetained 1 →
            Cookie.redeem aead (((KeyRing.new maxRetained).rotateAll
              (history ++ [master])).rotateAll later) cookie = .ok keys) ∧
          (max maxRetained 1 ≤ later.length →
            ∃ e, Cookie.redeem aead (((KeyRing.new maxRetained).rotateAll
              (history ++ [master])).rotateAll later) cookie = .error e))) ↔
        (later.length < max maxRetained 1 ↔
          (((KeyRing.new maxRetained).rotateAll (history ++ [master])).rotateAll later).Names
            master)) := by
  have hcurrent := KeyRing.current_rotateAll maxRetained history master
  obtain ⟨sealed, hsealed⟩ := Option.isSome_iff_exists.mp
    (hideal.seals master.key [Cookie.header master nonce.toList] (Cookie.payload keys))
  refine ⟨Cookie.header master nonce.toList ++ sealed, ?_, ?_⟩
  · simp [Cookie.mint, hcurrent, hsealed]
  · rw [← KeyRing.rotateAll_append]
    -- the keys of the ring are keys of its history
    have hretained : aead.Separates (master.key :: ((KeyRing.new maxRetained).rotateAll
        (history ++ [master] ++ later)).keys.map MasterKey.key) := by
      apply hsep.mono
      intro key hkey
      rcases List.mem_cons.mp hkey with rfl | hkey
      · simp
      · obtain ⟨retained, hin, rfl⟩ := List.mem_map.mp hkey
        rw [KeyRing.keys_new_rotateAll] at hin
        exact List.mem_map_of_mem (List.mem_of_mem_drop hin)
    obtain ⟨hok, herror⟩ := Cookie.redeem_iff_names hideal hretained
      (by simp [cookieNonceLen]) hsealed
    rw [hok, herror]
    constructor
    · rintro ⟨hwithin, hpast⟩
      refine ⟨hwithin, ?_⟩
      intro hnames
      by_contra hlong
      exact hpast (by omega) hnames
    · intro hiff
      refine ⟨hiff.mp, ?_⟩
      intro hpast hnames
      exact absurd (hiff.mpr hnames) (by omega)

/-- Two master keys that the cipher with a keyed tag tells apart. -/
theorem keyed_separates_two :
    Aead.keyed.Separates [Vector.replicate 32 1, Vector.replicate 32 2] :=
  Aead.keyed_separates (by decide)

/-- One rotation under a retention of two: the cookie is still good. -/
theorem redeem_after_rotations_iff_one :
    ∃ cookie, Cookie.mint .keyed ((KeyRing.new 2).rotateAll [⟨7, Vector.replicate 32 1⟩])
        ⟨Vector.replicate 32 3, Vector.replicate 32 4⟩ (Vector.replicate 16 5) = .ok cookie ∧
      Cookie.redeem .keyed (((KeyRing.new 2).rotateAll [⟨7, Vector.replicate 32 1⟩]).rotateAll
        [⟨8, Vector.replicate 32 2⟩]) cookie =
          .ok ⟨Vector.replicate 32 3, Vector.replicate 32 4⟩ := by
  obtain ⟨cookie, hmint, hiff⟩ := redeem_after_rotations_iff
    (Aead.ofTag_ideal _ : Aead.keyed.Ideal) 2 [] ⟨7, Vector.replicate 32 1⟩
    [⟨8, Vector.replicate 32 2⟩] keyed_separates_two
    ⟨Vector.replicate 32 3, Vector.replicate 32 4⟩ (Vector.replicate 16 5)
  refine ⟨cookie, hmint, (hiff.mpr ?_).1 (by decide)⟩
  constructor
  · intro _
    exact ⟨_, rfl, rfl⟩
  · intro _
    decide

/-- Two keys of one id: a cookie just minted under the newer is looked up under the older. -/
theorem redeem_refuses_repeated_id :
    Aead.keyed.Ideal ∧ Aead.keyed.Separates [Vector.replicate 32 1, Vector.replicate 32 2] ∧
      ∃ cookie, Cookie.mint .keyed ((KeyRing.new 3).rotateAll
          [⟨7, Vector.replicate 32 1⟩, ⟨7, Vector.replicate 32 2⟩])
          ⟨Vector.replicate 32 3, Vector.replicate 32 4⟩ (Vector.replicate 16 5) = .ok cookie ∧
        ∃ e, Cookie.redeem .keyed (((KeyRing.new 3).rotateAll
          [⟨7, Vector.replicate 32 1⟩, ⟨7, Vector.replicate 32 2⟩]).rotateAll []) cookie =
            .error e := by
  have hother : ¬((KeyRing.new 3).rotateAll
      [⟨7, Vector.replicate 32 1⟩, ⟨7, Vector.replicate 32 2⟩]).Names
        ⟨7, Vector.replicate 32 2⟩ := by
    rintro ⟨key, hbyId, hkey⟩
    obtain rfl : (⟨7, Vector.replicate 32 1⟩ : MasterKey) = key := Option.some.inj hbyId
    exact absurd hkey (by decide)
  have hideal : Aead.keyed.Ideal := Aead.ofTag_ideal _
  have hretained : Aead.keyed.Separates (Vector.replicate 32 2 :: ((KeyRing.new 3).rotateAll
      [⟨7, Vector.replicate 32 1⟩, ⟨7, Vector.replicate 32 2⟩]).keys.map MasterKey.key) :=
    keyed_separates_two.mono (by decide)
  exact ⟨hideal, keyed_separates_two, Cookie.redeem_mint_of_not_names hideal hretained
    (KeyRing.current_rotateAll 3 [⟨7, Vector.replicate 32 1⟩] _) hother _ _⟩

end RustyTime
