import RustyTime.Nts.Tls
import RustyTime.Spec.Certificate

/-!
# A chain judged at its own time

* `Dates.element_eq_some` — what is read as an element is one
* `validity_exact` — the window is read exactly where a certificate has it
* `chainTime_eq_some` — the moment a chain is judged at
* `verdict_any_clock` — the local clock decides nothing if the windows have a moment in common
-/

namespace RustyTime

open Infra Infra.Bytes

namespace Dates

/-! ## Elements -/

theorem foldl_shift (digits : List UInt8) :
    digits.foldl (fun len b => (len <<< 8) ||| b.toNat) 0 = beNat digits := by
  unfold beNat
  congr 1
  funext len b
  have hb : b.toNat < 2 ^ 8 := b.toNat_lt
  rw [← Nat.shiftLeft_add_eq_or_of_lt hb, Nat.shiftLeft_eq]

theorem toNat_count (first : UInt8) : (first &&& 0x7F).toNat = first.toNat % 128 := by
  rw [UInt8.toNat_and, show (0x7F : UInt8).toNat = 2 ^ 7 - 1 from rfl,
    Nat.and_two_pow_sub_one_eq_mod]

/-- Length octets are read whatever follows them, and nothing else is. -/
theorem lengthOf_eq_some {first : UInt8} {input rest : List UInt8} {len : Nat} :
    lengthOf first input = some (len, rest) ↔
      ∃ octets, Tlv.Length 4 len octets ∧ first :: input = octets ++ rest := by
  have hfirst := first.toNat_lt
  unfold lengthOf
  dsimp only
  rw [foldl_shift, toNat_count]
  constructor
  · intro h
    split at h
    · next hshort =>
      -- one octet, which is the length itself
      obtain ⟨rfl, rfl⟩ := Prod.mk.inj (Option.some.inj h)
      exact ⟨_, .short hshort, by rw [UInt8.ofNat_toNat]; rfl⟩
    · next hlong =>
      have hle : 128 ≤ first.toNat := UInt8.not_lt.mp hlong
      split at h
      · cases h
      · next hcount =>
        obtain ⟨rfl, rfl⟩ := Prod.mk.inj (Option.some.inj h)
        -- the octets that are counted are all there
        have hlen : (input.take (first.toNat % 128)).length = first.toNat % 128 := by
          rw [List.length_take]
          omega
        have hne : input.take (first.toNat % 128) ≠ [] := by
          intro hnil
          rw [hnil, List.length_nil] at hlen
          omega
        have hmark : UInt8.ofNat (128 + (input.take (first.toNat % 128)).length) = first := by
          rw [hlen, show 128 + first.toNat % 128 = first.toNat by omega, UInt8.ofNat_toNat]
        refine ⟨_, .long hne (by omega), ?_⟩
        rw [hmark, List.cons_append, List.take_append_drop]
  · rintro ⟨octets, hlength, hinput⟩
    cases hlength with
    | short h =>
      obtain ⟨rfl, rfl⟩ := List.cons.inj hinput
      have hlen : (UInt8.ofNat len).toNat = len := by
        rw [UInt8.toNat_ofNat', Nat.mod_eq_of_lt (by omega)]
      have hshort : UInt8.ofNat len < 0x80 := UInt8.lt_iff_toNat_lt.mpr (hlen.trans_lt h)
      rw [if_pos hshort, hlen]
    | @long digits hne hwide =>
      obtain ⟨rfl, rfl⟩ := List.cons.inj hinput
      have hpos := List.length_pos_iff.mpr hne
      have hmark : (UInt8.ofNat (128 + digits.length)).toNat = 128 + digits.length := by
        rw [UInt8.toNat_ofNat', Nat.mod_eq_of_lt (by omega)]
      have hcount : (128 + digits.length) % 128 = digits.length := by omega
      have hlong : ¬UInt8.ofNat (128 + digits.length) < 0x80 := by
        rw [UInt8.lt_iff_toNat_lt, hmark]
        exact Nat.not_lt.mpr (Nat.le_add_right 128 _)
      rw [if_neg hlong, hmark, hcount, if_neg (by rw [List.append_eq, List.length_append]; omega)]
      simp

/-- **What is read as an element is one.** -/
theorem element_eq_some {input contents rest : List UInt8} {tag : UInt8} :
    element input = some (tag, contents, rest) ↔ Tlv.Leads 4 tag contents input rest := by
  constructor
  · intro h
    unfold element at h
    split at h
    · next tag' first input =>
      obtain ⟨⟨len, after⟩, hlength, h⟩ := Option.bind_eq_some_iff.mp h
      dsimp only at h
      split at h
      · cases h
      · next hlong =>
        obtain ⟨rfl, hsplit⟩ := Prod.mk.inj (Option.some.inj h)
        obtain ⟨rfl, rfl⟩ := Prod.mk.inj hsplit
        obtain ⟨octets, hoctets, hinput⟩ := lengthOf_eq_some.mp hlength
        have hlen : (after.take len).length = len := by
          rw [List.length_take]
          omega
        refine ⟨_, ⟨octets, by rw [hlen]; exact hoctets, rfl⟩, ?_⟩
        rw [hinput, List.cons_append, List.cons_append, List.append_assoc, List.take_append_drop]
    · cases h
  · rintro ⟨octets, ⟨length, hlength, rfl⟩, rfl⟩
    obtain ⟨first, more, rfl⟩ := hlength.cons
    have hread : lengthOf first (more ++ (contents ++ rest)) =
        some (contents.length, contents ++ rest) :=
      lengthOf_eq_some.mpr ⟨_, hlength, rfl⟩
    simp [element, hread]

theorem expect_eq_some {tag : UInt8} {input contents rest : List UInt8} :
    expect tag input = some (contents, rest) ↔ Tlv.Leads 4 tag contents input rest := by
  rw [← element_eq_some]
  unfold expect
  constructor
  · intro h
    obtain ⟨⟨tag', contents', rest'⟩, hread, h⟩ := Option.bind_eq_some_iff.mp h
    dsimp only at h
    split at h
    · cases h
    · next htag =>
      obtain ⟨rfl, rfl⟩ := Prod.mk.inj (Option.some.inj h)
      rw [hread, not_not.mp htag]
  · intro h
    simp [h]

theorem skip_eq_some {tag : UInt8} {input rest : List UInt8} :
    skip input tag = some rest ↔ ∃ contents, Tlv.Leads 4 tag contents input rest := by
  unfold skip
  rw [Option.map_eq_some_iff]
  constructor
  · rintro ⟨⟨contents, rest'⟩, hread, rfl⟩
    exact ⟨contents, expect_eq_some.mp hread⟩
  · rintro ⟨contents, hread⟩
    exact ⟨_, expect_eq_some.mpr hread, rfl⟩

/-! ## The window -/

/-- A version is passed over. What else may stand there is the serial number. -/
theorem numbered_iff {tbs serial numbered named : List UInt8}
    (hserial : Tlv.Leads 4 0x02 serial numbered named) :
    (∃ tag contents after, element tbs = some (tag, contents, after) ∧
        (if tag = 0xA0 then after else tbs) = numbered) ↔
      numbered = tbs ∨ ∃ version, Tlv.Leads 4 0xA0 version tbs numbered := by
  have hread := element_eq_some.mpr hserial
  constructor
  · rintro ⟨tag, contents, after, htbs, hpassed⟩
    split at hpassed
    · next htag =>
      subst hpassed
      exact .inr ⟨contents, element_eq_some.mp (htag ▸ htbs)⟩
    · exact .inl hpassed.symm
  · rintro (rfl | ⟨version, hversion⟩)
    · exact ⟨_, _, _, hread, rfl⟩
    · exact ⟨_, _, _, element_eq_some.mpr hversion, rfl⟩

/-- **The window is read exactly where a certificate has it.** -/
theorem validity_eq_some {der : List UInt8} {first last : Int} :
    validity der = some (first, last) ↔
      ∃ before after, Layout der before after ∧ time before.1 before.2 = some first ∧
        time after.1 after.2 = some last := by
  constructor
  · intro h
    obtain ⟨⟨cert, more⟩, hcert, h⟩ := Option.bind_eq_some_iff.mp h
    obtain ⟨⟨tbs, signed⟩, htbs, h⟩ := Option.bind_eq_some_iff.mp h
    obtain ⟨⟨tag, version, numbered⟩, hversion, h⟩ := Option.bind_eq_some_iff.mp h
    obtain ⟨dated, hskip, h⟩ := Option.bind_eq_some_iff.mp h
    obtain ⟨⟨dates, subject⟩, hdates, h⟩ := Option.bind_eq_some_iff.mp h
    obtain ⟨⟨tagBefore, before, more'⟩, hbefore, h⟩ := Option.bind_eq_some_iff.mp h
    obtain ⟨⟨tagAfter, after, rest⟩, hafter, h⟩ := Option.bind_eq_some_iff.mp h
    obtain ⟨first', hfirst, h⟩ := Option.bind_eq_some_iff.mp h
    obtain ⟨last', hlast, h⟩ := Option.bind_eq_some_iff.mp h
    obtain ⟨rfl, rfl⟩ := Prod.mk.inj (Option.some.inj h)
    -- the serial number, the signature algorithm and the issuer are passed over
    obtain ⟨named, hnamed, hskip⟩ := Option.bind_eq_some_iff.mp hskip
    obtain ⟨issued, hissued, hskip⟩ := Option.bind_eq_some_iff.mp hskip
    obtain ⟨dated', hdated, hskip⟩ := Option.bind_eq_some_iff.mp hskip
    obtain rfl := Option.some.inj hskip
    obtain ⟨serial, hserial⟩ := skip_eq_some.mp hnamed
    obtain ⟨signature, hsignature⟩ := skip_eq_some.mp hissued
    obtain ⟨issuer, hissuer⟩ := skip_eq_some.mp hdated
    exact ⟨(tagBefore, before), (tagAfter, after), ⟨cert, more, tbs, signed, _, serial, named,
      signature, issued, issuer, dated', dates, subject, more', rest, expect_eq_some.mp hcert,
      expect_eq_some.mp htbs, (numbered_iff hserial).mp ⟨tag, version, numbered, hversion, rfl⟩,
      hserial, hsignature, hissuer, expect_eq_some.mp hdates, element_eq_some.mp hbefore,
      element_eq_some.mp hafter⟩, hfirst, hlast⟩
  · rintro ⟨before, after, ⟨cert, more, tbs, signed, numbered, serial, named, signature, issued,
      issuer, dated, dates, subject, more', rest, hcert, htbs, hnumbered, hserial, hsignature,
      hissuer, hdates, hbefore, hafter⟩, hfirst, hlast⟩
    obtain ⟨tag, version, after', hversion, hpassed⟩ := (numbered_iff hserial).mpr hnumbered
    have hskip : [0x02, 0x30, 0x30].foldlM skip numbered = some dated := by
      simp [skip_eq_some.mpr ⟨_, hserial⟩, skip_eq_some.mpr ⟨_, hsignature⟩,
        skip_eq_some.mpr ⟨_, hissuer⟩]
    simp only [validity, expect_eq_some.mpr hcert, expect_eq_some.mpr htbs, hversion, hpassed,
      hskip, expect_eq_some.mpr hdates, element_eq_some.mpr hbefore, element_eq_some.mpr hafter,
      hfirst, hlast, Option.bind_eq_bind, Option.bind_some]

end Dates

/-! ## What is written -/

/-- An element is one in front of others, where they all fit. -/
theorem leads_element {tag : UInt8} {contents rest whole : List UInt8}
    (hwhole : whole.length < 256 ^ 4)
    (hle : (Tlv.element tag contents ++ rest).length ≤ whole.length) :
    Tlv.Leads 4 tag contents (Tlv.element tag contents ++ rest) rest := by
  have hcontents := Tlv.length_le_element tag contents
  rw [List.length_append] at hle
  exact ⟨_, Tlv.element_spec (by decide) tag (by omega), rfl⟩

theorem length_le_of_append {xs ys : List UInt8} {n : Nat} (h : (xs ++ ys).length ≤ n) :
    ys.length ≤ n := by
  rw [List.length_append] at h
  omega

/-- DER is laid out as a certificate. -/
theorem Certificate.layout (c : Certificate) (rest : List UInt8) :
    Layout (c.encode ++ rest) (c.notBefore.tag, c.notBefore.value)
      (c.notAfter.tag, c.notAfter.value) := by
  have hfits := c.fits
  have htbs : c.tbs.length ≤ c.contents.length := by
    rw [CertParts.contents, List.length_append]
    exact (Tlv.length_le_element _ _).trans (Nat.le_add_right _ _)
  -- what is left at each element, from the dates back to the serial number
  let dated := Tlv.element 0x30 c.validity ++ c.subject
  let issued := Tlv.element 0x30 c.issuer ++ dated
  let named := Tlv.element 0x30 c.signature ++ issued
  let numbered := Tlv.element 0x02 c.serialNumber ++ named
  have htbs_eq : c.tbs = (c.version.map (Tlv.element 0xA0)).getD [] ++ numbered := by
    simp only [CertParts.tbs, numbered, named, issued, dated, List.append_assoc]
  rw [htbs_eq] at htbs
  have hnumbered : numbered.length ≤ c.contents.length := length_le_of_append htbs
  have hnamed : named.length ≤ c.contents.length := length_le_of_append hnumbered
  have hissued : issued.length ≤ c.contents.length := length_le_of_append hnamed
  have hdated : dated.length ≤ c.contents.length := length_le_of_append hissued
  have hvalidity : c.validity.length ≤ c.contents.length := by
    have hle := Tlv.length_le_element 0x30 c.validity
    simp only [dated, List.length_append] at hdated
    omega
  have hafter : (Tlv.element c.notAfter.tag c.notAfter.value ++ []).length ≤
      c.contents.length := by
    rw [List.append_nil]
    exact length_le_of_append hvalidity
  have hversion : numbered = c.tbs ∨ ∃ version, Tlv.Leads 4 0xA0 version c.tbs numbered := by
    rw [htbs_eq]
    cases hv : c.version with
    | none => exact .inl rfl
    | some version =>
      rw [hv] at htbs
      exact .inr ⟨version, leads_element hfits htbs⟩
  have hlast := leads_element hfits hafter
  rw [List.append_nil] at hlast
  exact ⟨_, _, _, _, numbered, _, named, _, issued, _, dated, _, _, _, _,
    ⟨_, Tlv.element_spec (by decide) 0x30 hfits, rfl⟩, leads_element hfits le_rfl, hversion,
    leads_element hfits hnumbered, leads_element hfits hnamed, leads_element hfits hissued,
    leads_element hfits hdated, leads_element hfits hvalidity, hlast⟩

/-- The window of a certificate is read from its DER, whatever follows it. -/
theorem validity_encode (c : Certificate) (rest : List UInt8) :
    Dates.validity (c.encode ++ rest) = some (c.first, c.last) :=
  Dates.validity_eq_some.mpr ⟨_, _, c.layout rest, time_of_encoded c.notBefore.encoded,
    time_of_encoded c.notAfter.encoded⟩

/-- **A window is read from what is laid out as a certificate, and from nothing else.** Every
certificate in DER is so laid out, and what is read of it is what it says. -/
theorem validity_exact :
    (∀ (der : List UInt8) (first last : Int), Dates.validity der = some (first, last) ↔
      ∃ before after, Layout der before after ∧ Dates.time before.1 before.2 = some first ∧
        Dates.time after.1 after.2 = some last) ∧
    ∀ (c : Certificate) (rest : List UInt8),
      Layout (c.encode ++ rest) (c.notBefore.tag, c.notBefore.value)
        (c.notAfter.tag, c.notAfter.value) ∧
      Dates.validity (c.encode ++ rest) = some (c.first, c.last) :=
  ⟨fun _ _ _ => Dates.validity_eq_some, fun c rest => ⟨c.layout rest, validity_encode c rest⟩⟩

/-! ## The chain -/

theorem mapM_validity (chain : List Certificate) :
    (chain.map Certificate.encode).mapM Dates.validity =
      some (chain.map fun c => (c.first, c.last)) := by
  induction chain with
  | nil => rfl
  | cons c chain ih =>
    have hread := validity_encode c []
    rw [List.append_nil] at hread
    rw [List.map_cons, List.mapM_cons, hread, ih]
    rfl

/-- The moment is the first second at which every certificate has begun. -/
theorem chainTime_eq_some {c : Certificate} {cs : List Certificate} {m : Nat} :
    chainTime c.encode (cs.map Certificate.encode) = some m ↔
      (∃ x ∈ c :: cs, x.first = m) ∧ ∀ x ∈ c :: cs, x.Covers m := by
  have hread : (c.encode :: cs.map Certificate.encode).mapM Dates.validity = _ :=
    mapM_validity (c :: cs)
  have hfirsts : ((c :: cs).map fun x => (x.first, x.last)).map Prod.fst =
      (c :: cs).map Certificate.first := by simp
  have hlasts : ((c :: cs).map fun x => (x.first, x.last)).map Prod.snd =
      (c :: cs).map Certificate.last := by simp
  unfold chainTime
  simp only [hread, Option.bind_eq_bind, Option.bind_some, hfirsts, hlasts]
  constructor
  · intro h
    obtain ⟨start, hstart, h⟩ := Option.bind_eq_some_iff.mp h
    obtain ⟨last, hlast, h⟩ := Option.bind_eq_some_iff.mp h
    obtain ⟨hmem, hmax⟩ := List.max?_eq_some_iff.mp hstart
    obtain ⟨-, hmin⟩ := List.min?_eq_some_iff.mp hlast
    rw [List.forall_mem_map] at hmax hmin
    rw [Option.ite_none_right_eq_some] at h
    obtain ⟨⟨hle, hpos⟩, h⟩ := h
    obtain rfl : start = m := by
      rw [← Option.some.inj h]
      exact (Int.toNat_of_nonneg hpos).symm
    exact ⟨List.mem_map.mp hmem, fun x hx => ⟨hmax x hx, hle.trans (hmin x hx)⟩⟩
  · rintro ⟨⟨x, hx, hfirst⟩, hcovers⟩
    have hstart : ((c :: cs).map Certificate.first).max? = some (m : Int) :=
      List.max?_eq_some_iff.mpr ⟨hfirst ▸ List.mem_map_of_mem hx,
        List.forall_mem_map.mpr fun y hy => (hcovers y hy).1⟩
    obtain ⟨last, hlast⟩ : ∃ last, ((c :: cs).map Certificate.last).min? = some last := by
      rw [← Option.isSome_iff_exists, List.isSome_min?_iff]
      simp
    obtain ⟨hmem, -⟩ := List.min?_eq_some_iff.mp hlast
    obtain ⟨y, hy, rfl⟩ := List.mem_map.mp hmem
    simp only [hstart, hlast, Option.bind_some]
    rw [if_pos ⟨(hcovers y hy).2, Int.natCast_nonneg m⟩, Int.toNat_natCast]

/-- Windows with a moment in common give one, unless all of them begin before the epoch. -/
theorem chainTime_of_covers {c : Certificate} {cs : List Certificate} {t : Int}
    (hcovers : ∀ x ∈ c :: cs, x.Covers t) (hepoch : ∃ x ∈ c :: cs, 0 ≤ x.first) :
    ∃ m, chainTime c.encode (cs.map Certificate.encode) = some m ∧ ∀ x ∈ c :: cs, x.Covers m := by
  obtain ⟨start, hstart⟩ : ∃ start, ((c :: cs).map Certificate.first).max? = some start := by
    rw [← Option.isSome_iff_exists, List.isSome_max?_iff]
    simp
  obtain ⟨hmem, hmax⟩ := List.max?_eq_some_iff.mp hstart
  obtain ⟨y, hy, hfirst⟩ := List.mem_map.mp hmem
  rw [List.forall_mem_map] at hmax
  obtain ⟨x, hx, hpos⟩ := hepoch
  have hnat : (start.toNat : Int) = start := Int.toNat_of_nonneg (hpos.trans (hmax x hx))
  have hall : ∀ z ∈ c :: cs, z.Covers start.toNat := by
    intro z hz
    rw [hnat]
    exact ⟨hmax z hz, hfirst ▸ (hcovers y hy).1.trans (hcovers z hz).2⟩
  exact ⟨start.toNat, chainTime_eq_some.mpr ⟨⟨y, hy, hfirst.trans hnat.symm⟩, hall⟩, hall⟩

/-- A verifier that reads the clock only to see which certificates of a chain are in their window. -/
def JudgesWindows {Verdict : Type} (inner : ServerCertVerifier Verdict) : Prop :=
  ∀ (c : Certificate) (cs : List Certificate) (t t' : Nat),
    (∀ x ∈ c :: cs, x.Covers t ↔ x.Covers t') →
      inner c.encode (cs.map Certificate.encode) t = inner c.encode (cs.map Certificate.encode) t'

/-- **The local clock decides nothing.** A chain whose windows have a moment in common is judged as
it would be at any such moment, whatever the local clock says, unless all of it began before the
epoch. Any other is judged at the local clock. -/
theorem verdict_any_clock {Verdict : Type} {inner : ServerCertVerifier Verdict}
    (hinner : JudgesWindows inner) (c : Certificate) (cs : List Certificate) (now : Nat) :
    (∀ t : Nat, (∀ x ∈ c :: cs, x.Covers t) → (∃ x ∈ c :: cs, 0 ≤ x.first) →
      verifyServerCert inner c.encode (cs.map Certificate.encode) now =
        inner c.encode (cs.map Certificate.encode) t) ∧
    ((¬∃ t : Nat, (∀ x ∈ c :: cs, x.Covers t) ∧ ∃ x ∈ c :: cs, 0 ≤ x.first) →
      verifyServerCert inner c.encode (cs.map Certificate.encode) now =
        inner c.encode (cs.map Certificate.encode) now) := by
  unfold verifyServerCert
  constructor
  · intro t hcovers hepoch
    obtain ⟨m, hm, hall⟩ := chainTime_of_covers hcovers hepoch
    rw [hm]
    exact hinner c cs m t fun x hx => iff_of_true (hall x hx) (hcovers x hx)
  · intro hnone
    cases hm : chainTime c.encode (cs.map Certificate.encode) with
    | none => rfl
    | some m =>
      obtain ⟨⟨x, hx, hfirst⟩, hall⟩ := chainTime_eq_some.mp hm
      exact absurd ⟨m, hall, x, hx, hfirst ▸ Int.natCast_nonneg m⟩ hnone

/-- A verifier that judges the windows alone. -/
def windowVerifier : ServerCertVerifier Bool := fun endEntity intermediates t =>
  (endEntity :: intermediates).all fun der =>
    (Dates.validity der).any fun w => decide (w.1 ≤ (t : Int) ∧ (t : Int) ≤ w.2)

theorem windowVerifier_judges : JudgesWindows windowVerifier := by
  have hall : ∀ (chain : List Certificate) (t : Nat),
      ((chain.map Certificate.encode).all fun der =>
        (Dates.validity der).any fun w => decide (w.1 ≤ (t : Int) ∧ (t : Int) ≤ w.2)) = true ↔
          ∀ x ∈ chain, x.Covers t := by
    intro chain t
    rw [List.all_map, List.all_eq_true]
    refine forall₂_congr fun x hx => ?_
    have hread := validity_encode x []
    rw [List.append_nil] at hread
    simp [hread, Certificate.Covers]
  intro c cs t t' hsame
  exact Bool.eq_iff_iff.mpr ((hall (c :: cs) t).trans
    ((forall₂_congr hsame).trans (hall (c :: cs) t').symm))

/-- A certificate for the year 2016 and the first second after it. -/
def certificate2016 : Certificate where
  version := some [2, 1, 2]
  serialNumber := [5]
  signature := []
  issuer := []
  notBefore := ⟨{ newYear2017 with date := newYear 2016 }, _, _, .utc (by decide) (by decide)⟩
  notAfter := ⟨newYear2017, _, _, .generalized (by decide) (by decide)⟩
  subject := []
  signed := []
  fits := by decide

/-- Its issuer's, for the twenty years from 2010. -/
def issuer2010 : Certificate where
  version := some [2, 1, 2]
  serialNumber := [1]
  signature := []
  issuer := []
  notBefore := ⟨{ newYear2017 with date := newYear 2010 }, _, _, .utc (by decide) (by decide)⟩
  notAfter := ⟨{ newYear2017 with date := newYear 2030 }, _, _, .utc (by decide) (by decide)⟩
  subject := []
  signed := []
  fits := by decide

/-- At the epoch the chain is judged as it would be in April 2016, and taken. -/
theorem verdict_any_clock_2016 :
    verifyServerCert windowVerifier certificate2016.encode [issuer2010.encode] 0 =
        windowVerifier certificate2016.encode [issuer2010.encode] 1460000000 ∧
      windowVerifier certificate2016.encode [issuer2010.encode] 1460000000 = true ∧
      windowVerifier certificate2016.encode [issuer2010.encode] 0 = false := by
  refine ⟨?_, by decide +kernel, by decide +kernel⟩
  refine (verdict_any_clock windowVerifier_judges certificate2016 [issuer2010] 0).1 1460000000 ?_ ?_
  · simp only [List.forall_mem_cons, List.not_mem_nil, false_imp_iff, implies_true, and_true]
    decide
  · exact ⟨certificate2016, List.mem_cons_self, by decide⟩

end RustyTime
