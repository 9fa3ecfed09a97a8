import Mathlib.Tactic.IntervalCases
import RustyTime.Properties.Records

/-!
# What makes an NTS-KE answer complete

`parse_response` asks three things of the records it sees: the last NEXT_PROTOCOL offers NTPv4, the
last AEAD_ALGORITHM offers AES-SIV-CMAC-256, and there is a cookie. It does not ask for the
END_OF_MESSAGE, so an answer cut between two records passes once it has these.

* `record_cases` — one record: refused, or what it changes
* `latest_iff` — the flags are decided by the last record of their type
* `parseResponse_isOk_iff` — what is accepted
* `accepted_whole_iff` — when an accepted answer is a whole one
-/

namespace RustyTime

open Infra.Bytes Infra.Iter

/-! ## Types -/

/-- A type of RFC 8915 section 4.1. -/
def Record.Known (r : Record) : Prop := r.recordType < 8

instance (r : Record) : Decidable r.Known := inferInstanceAs (Decidable (_ < _))

/-- What the client turns an answer down for: an error, a name that is not UTF-8, a critical record
it does not know. -/
def Record.Refused (r : Record) : Prop :=
  r.recordType = RecordType.error ∨
    (r.recordType = RecordType.serverNegotiation ∧ fromUtf8 r.body = none) ∨
    (¬r.Known ∧ r.critical = true)

instance (r : Record) : Decidable r.Refused := inferInstanceAs (Decidable (_ ∨ _ ∨ _))

variable {r : Record}

theorem not_known_of_ne (h : ∀ t < 8, r.recordType.toNat ≠ t) : ¬r.Known := by
  intro hknown
  exact h _ (UInt16.lt_iff_toNat_lt.mp hknown) rfl

/-- What the flags and the cookies are after a record that was not refused. -/
structure Parsing.Takes (p : Parsing) (r : Record) (p' : Parsing) : Prop where
  protoOk : p'.protoOk = if r.recordType = RecordType.nextProtocol then
    offers r.body nextProtoNtpv4 else p.protoOk
  aeadOk : p'.aeadOk = if r.recordType = RecordType.aeadAlgorithm then
    offers r.body aeadAesSivCmac256 else p.aeadOk
  cookies : p'.parsed.cookies = p.parsed.cookies ++
    if r.recordType = RecordType.newCookie then [r.body] else []

/-- A record of another type changes neither the flags nor the cookies. -/
theorem Parsing.Takes.other {p p' : Parsing} (hproto : p'.protoOk = p.protoOk)
    (haead : p'.aeadOk = p.aeadOk) (hcookies : p'.parsed.cookies = p.parsed.cookies)
    (h : r.recordType ≠ RecordType.nextProtocol ∧ r.recordType ≠ RecordType.aeadAlgorithm ∧
      r.recordType ≠ RecordType.newCookie) : p.Takes r p' where
  protoOk := by rw [if_neg h.1, hproto]
  aeadOk := by rw [if_neg h.2.1, haead]
  cookies := by rw [if_neg h.2.2, List.append_nil, hcookies]

/-- A record of a known type that neither reports an error nor names a server is not refused. -/
theorem not_refused_of_type {t : UInt16} (h : r.recordType = t)
    (ht : t < 8 ∧ t ≠ RecordType.error ∧ t ≠ RecordType.serverNegotiation) : ¬r.Refused := by
  subst h
  rintro (herror | ⟨hserver, -⟩ | ⟨hknown, -⟩)
  · exact ht.2.1 herror
  · exact ht.2.2 hserver
  · exact hknown ht.1

/-- One record of an answer: it is refused, or it changes what its type says. -/
theorem Parsing.record_cases (p : Parsing) (hend : ¬r.IsEnd) :
    (r.Refused ∧ ∃ e, p.record r = .error e) ∨
      (¬r.Refused ∧ ∃ p', p.record r = .ok p' ∧ p.Takes r p') := by
  unfold Parsing.record
  by_cases herror : r.recordType = RecordType.error
  · rw [if_pos herror]
    exact .inl ⟨.inl herror, _, rfl⟩
  rw [if_neg herror]
  by_cases hwarning : r.recordType = RecordType.warning
  · rw [if_pos hwarning]
    exact .inr ⟨not_refused_of_type hwarning (by decide), p, rfl,
      .other rfl rfl rfl (by rw [hwarning]; decide)⟩
  rw [if_neg hwarning]
  by_cases hproto : r.recordType = RecordType.nextProtocol
  · rw [if_pos hproto]
    refine .inr ⟨not_refused_of_type hproto (by decide), _, rfl, ⟨?_, ?_, ?_⟩⟩
    · rw [if_pos hproto]
    · rw [if_neg (by rw [hproto]; decide)]
    · rw [if_neg (by rw [hproto]; decide), List.append_nil]
  rw [if_neg hproto]
  by_cases haead : r.recordType = RecordType.aeadAlgorithm
  · rw [if_pos haead]
    refine .inr ⟨not_refused_of_type haead (by decide), _, rfl, ⟨?_, ?_, ?_⟩⟩
    · rw [if_neg (by rw [haead]; decide)]
    · rw [if_pos haead]
    · rw [if_neg (by rw [haead]; decide), List.append_nil]
  rw [if_neg haead]
  by_cases hcookie : r.recordType = RecordType.newCookie
  · rw [if_pos hcookie]
    refine .inr ⟨not_refused_of_type hcookie (by decide), _, rfl, ⟨?_, ?_, ?_⟩⟩
    · rw [if_neg (by rw [hcookie]; decide)]
    · rw [if_neg (by rw [hcookie]; decide)]
    · rw [if_pos hcookie]
  rw [if_neg hcookie]
  by_cases hserver : r.recordType = RecordType.serverNegotiation
  · rw [if_pos hserver]
    cases hname : fromUtf8 r.body with
    | none => exact .inl ⟨.inr (.inl ⟨hserver, hname⟩), _, rfl⟩
    | some server =>
      refine .inr ⟨?_, _, rfl, .other rfl rfl rfl ⟨hproto, haead, hcookie⟩⟩
      rintro (h | ⟨-, h⟩ | ⟨h, -⟩)
      · exact herror h
      · rw [hname] at h
        cases h
      · exact h (by unfold Record.Known; rw [hserver]; decide)
  rw [if_neg hserver]
  by_cases hport : r.recordType = RecordType.portNegotiation
  · rw [if_pos hport]
    refine .inr ⟨not_refused_of_type hport (by decide), ?_⟩
    split
    · exact ⟨_, rfl, .other rfl rfl rfl ⟨hproto, haead, hcookie⟩⟩
    · exact ⟨_, rfl, .other rfl rfl rfl ⟨hproto, haead, hcookie⟩⟩
  rw [if_neg hport]
  -- none of the types it knows
  have hunknown : ¬r.Known := by
    apply not_known_of_ne
    intro t ht heq
    have heq' : r.recordType = UInt16.ofNat t := by rw [← heq, UInt16.ofNat_toNat]
    interval_cases t
    · exact hend heq'
    · exact hproto heq'
    · exact herror heq'
    · exact hwarning heq'
    · exact haead heq'
    · exact hcookie heq'
    · exact hserver heq'
    · exact hport heq'
  split
  · next hcritical =>
    exact .inl ⟨.inr (.inr ⟨hunknown, hcritical⟩), _, rfl⟩
  · next hcritical =>
    refine .inr ⟨?_, p, rfl, .other rfl rfl rfl ⟨hproto, haead, hcookie⟩⟩
    rintro (h | ⟨h, -⟩ | ⟨-, h⟩)
    · exact herror h
    · exact hserver h
    · exact hcritical h

/-! ## The flags -/

/-- A flag after records: each of its type sets it anew. -/
def latest (t value : UInt16) (init : Bool) (rs : List Record) : Bool :=
  rs.foldl (fun ok r => if r.recordType = t then offers r.body value else ok) init

/-- The last record of a type offers a value. -/
def LastOffers (t value : UInt16) (rs : List Record) : Prop :=
  ∃ r, (rs.filter fun r => r.recordType = t).getLast? = some r ∧ offers r.body value = true

/-- The last record of its type decides a flag. -/
theorem latest_iff (t value : UInt16) (rs : List Record) :
    latest t value false rs = true ↔ LastOffers t value rs := by
  unfold LastOffers latest
  induction rs using List.reverseRecOn with
  | nil => simp
  | append_singleton rs r ih =>
    rw [List.foldl_append, List.foldl_cons, List.foldl_nil, List.filter_append]
    by_cases hr : r.recordType = t
    · have hlast : [r].filter (fun r => r.recordType = t) = [r] := by simp [hr]
      rw [if_pos hr, hlast, List.getLast?_concat]
      constructor
      · intro h
        exact ⟨r, rfl, h⟩
      · rintro ⟨r', heq, h⟩
        cases heq
        exact h
    · have hnone : [r].filter (fun r => r.recordType = t) = [] := by simp [hr]
      rw [if_neg hr, hnone, List.append_nil]
      exact ih

/-! ## All records -/

/-- The records of an answer make it complete. -/
structure Complete (rs : List Record) : Prop where
  accepted : ∀ r ∈ rs, ¬r.Refused
  proto : LastOffers RecordType.nextProtocol nextProtoNtpv4 rs
  aead : LastOffers RecordType.aeadAlgorithm aeadAesSivCmac256 rs
  cookie : ∃ r ∈ rs, r.recordType = RecordType.newCookie

theorem Parsing.items_cons (p : Parsing) (hr : ¬r.IsEnd)
    (rest : List (Except RecordError Record)) : p.items (.ok r :: rest) =
      match p.record r with
      | .error e => .error e
      | .ok p => p.items rest := if_neg hr

/-- A refused record ends the loop. -/
theorem Parsing.items_refused {rs : List Record} (h : ∃ r ∈ rs, r.Refused)
    (hend : ∀ r ∈ rs, ¬r.IsEnd) (p : Parsing) (rest : List (Except RecordError Record)) :
    ∃ e, p.items (rs.map .ok ++ rest) = .error e := by
  induction rs generalizing p with
  | nil =>
    obtain ⟨_, hmem, -⟩ := h
    cases hmem
  | cons r rs ih =>
    have hr : ¬r.IsEnd := hend r List.mem_cons_self
    rw [List.map_cons, List.cons_append, Parsing.items_cons p hr]
    rcases p.record_cases hr with ⟨-, e, herr⟩ | ⟨hok, p', hrec, -⟩
    · rw [herr]
      exact ⟨e, rfl⟩
    · rw [hrec]
      obtain ⟨x, hmem, hx⟩ := h
      rcases List.mem_cons.mp hmem with rfl | hmem
      · exact absurd hx hok
      · exact ih ⟨x, hmem, hx⟩ (fun y hy => hend y (List.mem_cons_of_mem _ hy)) p'

/-- Where none is refused the loop goes on behind them, with the flags the records set. -/
theorem Parsing.items_accepted {rs : List Record} (h : ∀ r ∈ rs, ¬r.Refused)
    (hend : ∀ r ∈ rs, ¬r.IsEnd) (p : Parsing) :
    ∃ p' : Parsing, (∀ rest, p.items (rs.map .ok ++ rest) = p'.items rest) ∧
      p'.protoOk = latest RecordType.nextProtocol nextProtoNtpv4 p.protoOk rs ∧
      p'.aeadOk = latest RecordType.aeadAlgorithm aeadAesSivCmac256 p.aeadOk rs ∧
      (p'.parsed.cookies = [] ↔ p.parsed.cookies = [] ∧
        ∀ r ∈ rs, r.recordType ≠ RecordType.newCookie) := by
  induction rs generalizing p with
  | nil => exact ⟨p, fun rest => rfl, rfl, rfl, by simp⟩
  | cons r rs ih =>
    have hr : ¬r.IsEnd := hend r List.mem_cons_self
    rcases p.record_cases hr with ⟨hrefused, -⟩ | ⟨-, p₁, hrec, htakes⟩
    · exact absurd hrefused (h r List.mem_cons_self)
    · obtain ⟨p', hitems, hproto, haead, hcookies⟩ :=
        ih (fun x hx => h x (List.mem_cons_of_mem _ hx))
          (fun x hx => hend x (List.mem_cons_of_mem _ hx)) p₁
      refine ⟨p', ?_, ?_, ?_, ?_⟩
      · intro rest
        rw [List.map_cons, List.cons_append, Parsing.items_cons p hr, hrec]
        exact hitems rest
      · rw [hproto, htakes.protoOk]
        rfl
      · rw [haead, htakes.aeadOk]
        rfl
      · rw [hcookies, htakes.cookies, List.append_eq_nil_iff, List.forall_mem_cons, and_assoc]
        refine and_congr_right fun _ => and_congr_left fun _ => ?_
        split
        · next heq => simp [heq]
        · next hne => simp [hne]

/-- What `parse_response` does once the loop is over. -/
def Parsing.verdict (p : Parsing) : Except KeError Parsed :=
  if p.protoOk = false then .error (.negotiation "server did not accept NTPv4")
  else if p.aeadOk = false then
    .error (.negotiation "server did not accept AES-SIV-CMAC-256")
  else if p.parsed.cookies = [] then .error (.negotiation "server sent no cookies")
  else .ok p.parsed

theorem Parsing.verdict_isOk_iff (p : Parsing) : (∃ parsed, p.verdict = .ok parsed) ↔
    p.protoOk = true ∧ p.aeadOk = true ∧ p.parsed.cookies ≠ [] := by
  unfold Parsing.verdict
  cases p.protoOk with
  | false => simp
  | true =>
    cases p.aeadOk with
    | false => simp
    | true => by_cases hcookies : p.parsed.cookies = [] <;> simp [hcookies]

theorem parseResponse_eq (buf : List UInt8) (host : String) (kePort : UInt16) :
    parseResponse buf host kePort =
      match Parsing.items ⟨⟨[], host, 123⟩, false, false⟩ (recordItems buf) with
      | .error e => .error e
      | .ok p => p.verdict := rfl

/-- What follows the whole records of a buffer that are not its end: nothing, the end of the
message, or a truncation. -/
inductive Ending : List (Except RecordError Record) → Prop
  | unfinished : Ending []
  | finished (r : Record) (h : r.IsEnd) : Ending [.ok r]
  | cut (e : RecordError) : Ending [.error e]

theorem yields_ending {self : RecordIter} {items : List (Except RecordError Record)}
    (h : Yields RecordIter.next self items) :
    ∃ (rs : List Record) (tail : List (Except RecordError Record)),
      items = rs.map .ok ++ tail ∧ (∀ r ∈ rs, ¬r.IsEnd) ∧ Ending tail := by
  induction h with
  | done _ => exact ⟨[], [], rfl, by simp, .unfinished⟩
  | @item self self' x items hnext hrest ih =>
    cases x with
    | error e =>
      obtain rfl := hrest.eq_nil (next_end (.inl (next_error hnext)))
      exact ⟨[], [.error e], rfl, by simp, .cut e⟩
    | ok r =>
      by_cases hr : r.IsEnd
      · obtain rfl := hrest.eq_nil
          (next_end (.inl ((next_isEnd hnext).trans (decide_eq_true hr))))
        exact ⟨[], [.ok r], rfl, by simp, .finished r hr⟩
      · obtain ⟨rs, tail, rfl, hrs, htail⟩ := ih
        exact ⟨r :: rs, tail, rfl, List.forall_mem_cons.mpr ⟨hr, hrs⟩, htail⟩

/-- The records a buffer holds whole, its end apart, and what ends it. -/
theorem exists_ending (buf : List UInt8) :
    ∃ (rs : List Record) (tail : List (Except RecordError Record)),
      recordItems buf = rs.map .ok ++ tail ∧ (∀ r ∈ rs, ¬r.IsEnd) ∧ Ending tail :=
  yields_ending (yields_recordItems buf)

/-- **What is accepted**: complete records, and no truncation behind them. -/
theorem parseResponse_isOk_iff {buf : List UInt8} {rs : List Record}
    {tail : List (Except RecordError Record)} (hitems : recordItems buf = rs.map .ok ++ tail)
    (hend : ∀ r ∈ rs, ¬r.IsEnd) (htail : Ending tail) (host : String) (kePort : UInt16) :
    (∃ parsed, parseResponse buf host kePort = .ok parsed) ↔
      Complete rs ∧ ∀ e, .error e ∉ tail := by
  rw [parseResponse_eq, hitems]
  by_cases hrefused : ∃ r ∈ rs, r.Refused
  · obtain ⟨e, herr⟩ := Parsing.items_refused hrefused hend ⟨⟨[], host, 123⟩, false, false⟩ tail
    rw [herr]
    obtain ⟨r, hmem, hr⟩ := hrefused
    refine iff_of_false ?_ ?_
    · rintro ⟨_, h⟩
      cases h
    · rintro ⟨hcomplete, -⟩
      exact hcomplete.accepted r hmem hr
  · have haccepted : ∀ r ∈ rs, ¬r.Refused := fun r hmem hr => hrefused ⟨r, hmem, hr⟩
    obtain ⟨p, hloop, hproto, haead, hcookies⟩ :=
      Parsing.items_accepted haccepted hend ⟨⟨[], host, 123⟩, false, false⟩
    have hcomplete : (∃ parsed, p.verdict = .ok parsed) ↔ Complete rs := by
      rw [Parsing.verdict_isOk_iff, hproto, haead, latest_iff, latest_iff, Ne, hcookies]
      constructor
      · rintro ⟨h₁, h₂, h₃⟩
        refine ⟨haccepted, h₁, h₂, ?_⟩
        by_contra hnone
        exact h₃ ⟨rfl, fun r hmem hr => hnone ⟨r, hmem, hr⟩⟩
      · rintro ⟨-, h₁, h₂, r, hmem, hr⟩
        exact ⟨h₁, h₂, fun h => h.2 r hmem hr⟩
    rw [hloop]
    cases htail with
    | unfinished => simpa [Parsing.items] using hcomplete
    | finished r hr =>
      have hstop : p.items [.ok r] = .ok p := if_pos hr
      rw [hstop]
      simpa using hcomplete
    | cut e =>
      refine iff_of_false ?_ ?_
      · rintro ⟨_, h⟩
        cases h
      · rintro ⟨-, h⟩
        exact h e List.mem_cons_self

/-! ## Whole answers -/

/-- The buffer ends inside a record. -/
def EndsInside (buf : List UInt8) : Prop := ∃ e, .error e ∈ recordItems buf

/-- The whole records of a buffer. -/
def wholeRecords (buf : List UInt8) : List Record := (recordItems buf).filterMap Except.toOption

theorem wholeRecords_eq {buf : List UInt8} {rs : List Record}
    (h : recordItems buf = rs.map .ok) : wholeRecords buf = rs := by
  unfold wholeRecords
  rw [h, List.filterMap_map]
  exact List.filterMap_some

/-- The end of the message changes nothing in the loop. -/
theorem Parsing.items_end (p : Parsing) (items : List (Except RecordError Record))
    (hr : r.IsEnd) : p.items (items ++ [.ok r]) = p.items items := by
  induction items generalizing p with
  | nil => exact if_pos hr
  | cons x items ih =>
    cases x with
    | error e => rfl
    | ok r' =>
      rw [List.cons_append, Parsing.items, Parsing.items]
      split
      · rfl
      · cases p.record r' with
        | error e => rfl
        | ok p' => exact ih p'

/-- Nor in what the answer says. -/
theorem parseResponse_end {rs : List Record} {last : Record} (hfits : ∀ r ∈ rs ++ [last], r.Fits)
    (hend : ∀ r ∈ rs, ¬r.IsEnd) (hlast : last.IsEnd) (host : String) (kePort : UInt16) :
    parseResponse (writeRecords (rs ++ [last])) host kePort =
      parseResponse (writeRecords rs) host kePort := by
  have hall : EndLast (rs ++ [last]) := by
    unfold EndLast
    rwa [List.dropLast_concat]
  have hrs : EndLast rs := fun r hr => hend r (List.dropLast_subset rs hr)
  have hread := yields_writeRecords hfits
  have hread' := yields_writeRecords fun r hr => hfits r (List.mem_append_left _ hr)
  rw [untilEnd_of_endLast hall] at hread
  rw [untilEnd_of_endLast hrs] at hread'
  rw [parseResponse_eq, parseResponse_eq, recordItems_eq hread, recordItems_eq hread',
    List.map_append, List.map_singleton, Parsing.items_end _ _ hlast]

/-- Bytes that are accepted have their END_OF_MESSAGE unless they end between two records and the
records up to there are complete. -/
theorem accepted_end_iff (buf : List UInt8) (host : String) (kePort : UInt16) :
    (∀ parsed, parseResponse buf host kePort = .ok parsed → hasEndOfMessage buf = true) ↔
      hasEndOfMessage buf = true ∨ EndsInside buf ∨ ¬Complete (wholeRecords buf) := by
  obtain ⟨rs, tail, hitems, hend, htail⟩ := exists_ending buf
  have hok := parseResponse_isOk_iff hitems hend htail host kePort
  cases htail with
  | unfinished =>
    have hnone : hasEndOfMessage buf ≠ true := by
      rw [Ne, hasEndOfMessage_iff, hitems]
      rintro ⟨r, hmem, hr⟩
      rw [List.append_nil] at hmem
      obtain ⟨r', hmem', heq⟩ := List.mem_map.mp hmem
      cases heq
      exact hend r hmem' hr
    have hinside : ¬EndsInside buf := by
      rintro ⟨e, hmem⟩
      rw [hitems, List.append_nil] at hmem
      obtain ⟨r', -, heq⟩ := List.mem_map.mp hmem
      cases heq
    rw [wholeRecords_eq (hitems.trans (List.append_nil _))]
    constructor
    · intro h
      refine .inr (.inr fun hcomplete => ?_)
      obtain ⟨parsed, hparsed⟩ := hok.mpr ⟨hcomplete, by simp⟩
      exact hnone (h parsed hparsed)
    · rintro (h | h | h) parsed hparsed
      · exact h
      · exact absurd h hinside
      · exact absurd (hok.mp ⟨parsed, hparsed⟩).1 h
  | finished r hr =>
    have hbuf : hasEndOfMessage buf = true := by
      rw [hasEndOfMessage_iff, hitems]
      exact ⟨r, List.mem_append_right _ List.mem_cons_self, hr⟩
    exact iff_of_true (fun _ _ => hbuf) (.inl hbuf)
  | cut e =>
    refine iff_of_true ?_ (.inr (.inl ⟨e, ?_⟩))
    · intro parsed hparsed
      exact absurd List.mem_cons_self ((hok.mp ⟨parsed, hparsed⟩).2 e)
    · rw [hitems]
      exact List.mem_append_right _ List.mem_cons_self

/-- A whole answer cut off is turned down exactly if the cut is inside a record or what is kept is
not complete. -/
theorem cut_refused_iff {rs : List Record} {last : Record} (hfits : ∀ r ∈ rs ++ [last], r.Fits)
    (hend : ∀ r ∈ rs, ¬r.IsEnd) (host : String) (kePort : UInt16) {n : Nat}
    (hn : n < (writeRecords (rs ++ [last])).length) : ∃ k ≤ rs.length,
      (writeRecords (rs.take k)).length ≤ n ∧
      n < (writeRecords ((rs ++ [last]).take (k + 1))).length ∧
      ((∃ e, parseResponse ((writeRecords (rs ++ [last])).take n) host kePort = .error e) ↔
        n ≠ (writeRecords (rs.take k)).length ∨ ¬Complete (rs.take k)) := by
  have hall : EndLast (rs ++ [last]) := by
    unfold EndLast
    rwa [List.dropLast_concat]
  obtain ⟨k, hk, hle, hlt, hyields⟩ := yields_take hfits hall hn
  rw [List.length_append, List.length_singleton, Nat.lt_succ_iff] at hk
  have htake : (rs ++ [last]).take k = rs.take k := List.take_append_of_le_length hk
  rw [htake] at hle hyields
  refine ⟨k, hk, hle, hlt, ?_⟩
  have hnone : ∀ r ∈ rs.take k, ¬r.IsEnd := fun r hr => hend r (List.mem_of_mem_take hr)
  have herror : (∃ e, parseResponse ((writeRecords (rs ++ [last])).take n) host kePort =
      .error e) ↔ ¬∃ parsed,
        parseResponse ((writeRecords (rs ++ [last])).take n) host kePort = .ok parsed := by
    cases parseResponse ((writeRecords (rs ++ [last])).take n) host kePort <;> simp
  rw [herror]
  by_cases hcut : n = (writeRecords (rs.take k)).length
  · rw [if_pos hcut] at hyields
    rw [parseResponse_isOk_iff (recordItems_eq hyields) hnone .unfinished]
    simp [hcut]
  · rw [if_neg hcut] at hyields
    rw [parseResponse_isOk_iff (recordItems_eq hyields) hnone (.cut _)]
    simp [hcut]

/--
**When an accepted answer is a whole one.** Bytes that are accepted have their END_OF_MESSAGE unless
they end between two records and the records up to there are complete. A whole answer cut off is
turned down exactly if the cut is inside a record or what is kept is not complete; cut off right
before its END_OF_MESSAGE it is always accepted, with the same result.
-/
theorem accepted_whole_iff (host : String) (kePort : UInt16) :
    (∀ buf,
      (∀ parsed, parseResponse buf host kePort = .ok parsed → hasEndOfMessage buf = true) ↔
        hasEndOfMessage buf = true ∨ EndsInside buf ∨ ¬Complete (wholeRecords buf)) ∧
    ∀ (rs : List Record) (last : Record) (parsed : Parsed),
      (∀ r ∈ rs ++ [last], r.Fits) → (∀ r ∈ rs, ¬r.IsEnd) → last.IsEnd →
        parseResponse (writeRecords (rs ++ [last])) host kePort = .ok parsed →
          (∀ n < (writeRecords (rs ++ [last])).length, ∃ k ≤ rs.length,
            (writeRecords (rs.take k)).length ≤ n ∧
            n < (writeRecords ((rs ++ [last]).take (k + 1))).length ∧
            ((∃ e, parseResponse ((writeRecords (rs ++ [last])).take n) host kePort = .error e) ↔
              n ≠ (writeRecords (rs.take k)).length ∨ ¬Complete (rs.take k))) ∧
          parseResponse (writeRecords rs) host kePort = .ok parsed := by
  constructor
  · exact fun buf => accepted_end_iff buf host kePort
  · intro rs last parsed hfits hend hlast hparsed
    refine ⟨fun n hn => cut_refused_iff hfits hend host kePort hn, ?_⟩
    rw [← parseResponse_end hfits hend hlast]
    exact hparsed

/-- The records of a small answer, its end apart. -/
def smallAnswer : List Record :=
  [⟨true, RecordType.nextProtocol, [0, 0]⟩, ⟨true, RecordType.aeadAlgorithm, [0, 15]⟩,
    ⟨false, RecordType.newCookie, [7]⟩]

/-- A connection that is cut before the end of the message. -/
def cutConnection : KeConnection where
  reads := [.data (writeRecords smallAnswer), .unexpectedEof]
  alpnProtocol := some alpn
  exportKey direction := some (Vector.replicate 32 direction)

/-- An answer without its end is accepted, and keys are established on it. -/
theorem not_accepted_whole :
    hasEndOfMessage (writeRecords smallAnswer) = false ∧
      parseResponse (writeRecords smallAnswer) "ke" 4460 = .ok ⟨[[7]], "ke", 123⟩ ∧
      (establish cutConnection "ke" 4460).toOption.map (·.parsed) =
        some ⟨[[7]], "ke", 123⟩ := by
  decide +kernel

end RustyTime
