import RustyTime.Daemon.Establish
import RustyTime.Properties.KeCritical
import RustyTime.Properties.NtsSession

/-!
# Both ends of key establishment agree

The client's request, the server's answer, and what the client makes of it, each message cut into
reads in any way.

* `keAnswer_ok` — the answer is a list of records
* `parseResponse_answer` — and the client reads its cookies and its port back
* `establish_whole`, `establish_part` — what the client has of an answer, or of a part of it
* `establish_agrees` — the two ends hold the same keys, and the client holds cookies of the server
-/

namespace RustyTime

open Infra.Bytes Infra.Iter
open NtsSession (zeroRandom)

theorem ok_of_toOption {ε α : Type} {x : Except ε α} {a : α} (h : x.toOption = some a) :
    x = .ok a := by
  cases x with
  | error _ => cases h
  | ok _ => exact congrArg _ (Option.some.inj h)

/-- A message arrives: cut into reads in any way, and nothing behind it. -/
def Delivers (reads : List KeRead) (message : List UInt8) : Prop :=
  ∃ (chunks : List (List UInt8)) (closing : List KeRead), (∀ c ∈ chunks, c ≠ []) ∧
    Closing closing ∧ reads = chunks.map .data ++ closing ∧ chunks.flatten = message

/-- In one read. -/
theorem Delivers.whole {message : List UInt8} (hne : message ≠ []) :
    Delivers [.data message] message :=
  ⟨[message], [], fun _ hc => List.mem_singleton.mp hc ▸ hne, .closed, rfl,
    List.append_nil message⟩

/-- What arrives has the records of the message. -/
theorem Delivers.recordItems_eq {ε : Type} (oversized failed : ε) {limit : Nat}
    {reads : List KeRead} {message : List UInt8} (h : Delivers reads message)
    (hlen : message.length ≤ limit) :
    ∃ out, readMessage limit oversized failed reads [] = .ok out ∧
      recordItems out = recordItems message := by
  obtain ⟨chunks, closing, hne, hclosing, rfl, rfl⟩ := h
  exact readMessage_chunks limit oversized failed hne hclosing hlen

/-! ## The messages -/

/-- The records of the client's request. -/
def requestRecords : List Record :=
  [⟨true, RecordType.nextProtocol, toBe 2 nextProtoNtpv4.toNat⟩,
    ⟨true, RecordType.aeadAlgorithm, toBe 2 aeadAesSivCmac256.toNat⟩,
    ⟨true, RecordType.endOfMessage, []⟩]

/-- The records of the error response. -/
def badRecords : List Record :=
  [⟨true, RecordType.error, toBe 2 1⟩, ⟨true, RecordType.endOfMessage, []⟩]

/-- A list of records that can be written. -/
theorem fits_of_forall {rs : List Record}
    (h : ∀ r ∈ rs, r.recordType < 0x8000 ∧ r.body.length ≤ maxRecordBody) : ∀ r ∈ rs, r.Fits :=
  fun r hr => ⟨(h r hr).1, (h r hr).2⟩

theorem badRecords_short :
    ∀ r ∈ badRecords, r.recordType < 0x8000 ∧ r.body.length ≤ maxRecordBody := by decide

theorem clientRequest_eq : clientRequest = writeRecords requestRecords := by decide

/-- One cookie in an answer. -/
def cookieRecord (cookie : List UInt8) : Record := ⟨false, RecordType.newCookie, cookie⟩

/-- The part of an answer before its cookies. -/
def answerHead (ntpPort : UInt16) : List Record :=
  [⟨true, RecordType.nextProtocol, toBe 2 nextProtoNtpv4.toNat⟩,
    ⟨true, RecordType.aeadAlgorithm, toBe 2 aeadAesSivCmac256.toNat⟩] ++
    if ntpPort ≠ 123 then [⟨false, RecordType.portNegotiation, toBe 2 ntpPort.toNat⟩] else []

/-- The records of an answer that carries cookies. -/
def answerRecords (ntpPort : UInt16) (cookies : List (List UInt8)) : List Record :=
  answerHead ntpPort ++ cookies.map cookieRecord ++ [⟨true, RecordType.endOfMessage, []⟩]

/-- Before its cookies an answer has short records, none of them its end. -/
theorem mem_answerHead {ntpPort : UInt16} {r : Record} (h : r ∈ answerHead ntpPort) :
    r.Fits ∧ ¬r.IsEnd ∧ r.body.length = 2 := by
  have hproto : RecordType.nextProtocol < 0x8000 ∧
      RecordType.nextProtocol ≠ RecordType.endOfMessage := by decide
  have haead : RecordType.aeadAlgorithm < 0x8000 ∧
      RecordType.aeadAlgorithm ≠ RecordType.endOfMessage := by decide
  have hport : RecordType.portNegotiation < 0x8000 ∧
      RecordType.portNegotiation ≠ RecordType.endOfMessage := by decide
  have htypes : (r.recordType < 0x8000 ∧ ¬r.IsEnd) ∧ r.body.length = 2 := by
    unfold answerHead at h
    split at h
    · simp only [List.cons_append, List.nil_append, List.mem_cons, List.not_mem_nil, or_false] at h
      rcases h with rfl | rfl | rfl
      · exact ⟨hproto, length_toBe _ _⟩
      · exact ⟨haead, length_toBe _ _⟩
      · exact ⟨hport, length_toBe _ _⟩
    · simp only [List.append_nil, List.mem_cons, List.not_mem_nil, or_false] at h
      rcases h with rfl | rfl
      · exact ⟨hproto, length_toBe _ _⟩
      · exact ⟨haead, length_toBe _ _⟩
  exact ⟨⟨htypes.1.1, by rw [htypes.2]; decide⟩, htypes.1.2, htypes.2⟩

/-- A record of an answer is short, a cookie or its end. -/
theorem mem_answerRecords {ntpPort : UInt16} {cookies : List (List UInt8)} {r : Record}
    (h : r ∈ answerRecords ntpPort cookies) :
    r ∈ answerHead ntpPort ∨ (∃ c ∈ cookies, r = cookieRecord c) ∨
      r = ⟨true, RecordType.endOfMessage, []⟩ := by
  unfold answerRecords at h
  rw [List.mem_append, List.mem_append, List.mem_map] at h
  rcases h with (hhead | ⟨c, hc, rfl⟩) | hend
  · exact .inl hhead
  · exact .inr (.inl ⟨c, hc, rfl⟩)
  · exact .inr (.inr (List.mem_singleton.mp hend))

/-- Cookies of this server fit, and an answer of a few of them is far from the limit. -/
theorem fits_answerRecords (ntpPort : UInt16) {cookies : List (List UInt8)}
    (h : ∀ c ∈ cookies, c.length = 100) :
    ∀ r ∈ answerRecords ntpPort cookies, r.Fits ∧ r.body.length ≤ 100 := by
  intro r hr
  rcases mem_answerRecords hr with hhead | ⟨c, hc, rfl⟩ | rfl
  · obtain ⟨hfits, -, hbody⟩ := mem_answerHead hhead
    exact ⟨hfits, by omega⟩
  · have hbody : (cookieRecord c).body.length = 100 := h c hc
    have htype : RecordType.newCookie < 0x8000 := by decide
    exact ⟨⟨htype, by rw [hbody]; decide⟩, hbody.le⟩
  · exact ⟨⟨by decide, Nat.zero_le _⟩, Nat.zero_le _⟩

theorem length_answerRecords (ntpPort : UInt16) {cookies : List (List UInt8)}
    (hcount : cookies.length = 8) (h : ∀ c ∈ cookies, c.length = 100) :
    (writeRecords (answerRecords ntpPort cookies)).length ≤ 64 * 1024 := by
  have hbytes : ∀ rs : List Record, (∀ r ∈ rs, r.Fits ∧ r.body.length ≤ 100) →
      (rs.flatMap Record.bytes).length ≤ 104 * rs.length := by
    intro rs hrs
    induction rs with
    | nil => exact Nat.zero_le _
    | cons r rs ih =>
      obtain ⟨hfits, hbody⟩ := hrs r List.mem_cons_self
      have hrest := ih fun x hx => hrs x (List.mem_cons_of_mem _ hx)
      rw [List.flatMap_cons, List.length_append, Record.length_bytes hfits, List.length_cons]
      omega
  have hrecords : (answerRecords ntpPort cookies).length ≤ 12 := by
    unfold answerRecords answerHead
    split <;> simp [hcount]
  have hall := hbytes _ (fits_answerRecords ntpPort h)
  rw [writeRecords_eq]
  omega

theorem endLast_answerRecords (ntpPort : UInt16) (cookies : List (List UInt8)) :
    EndLast (answerRecords ntpPort cookies) := by
  intro r hr
  unfold answerRecords at hr
  rw [List.dropLast_concat, List.mem_append, List.mem_map] at hr
  rcases hr with hhead | ⟨c, -, rfl⟩
  · exact (mem_answerHead hhead).2.1
  · exact show RecordType.newCookie ≠ RecordType.endOfMessage by decide

/-! ## The server's end -/

variable {aead : Aead}

/-- What the loop writes is a list of cookies, minted for the keys. -/
theorem writeCookies_ok {ring : KeyRing} {keys : NtsKeys} {random : SystemRandom} {count i : Nat}
    {out out' : List UInt8} (h : writeCookies aead ring keys random count i out = .ok out') :
    ∃ cookies : List (List UInt8), out' = out ++ writeRecords (cookies.map cookieRecord) ∧
      cookies.length = count ∧
      ∀ c ∈ cookies, ∃ nonce, Cookie.mint aead ring keys nonce = .ok c := by
  induction count generalizing i out with
  | zero =>
    cases h
    exact ⟨[], by simp [writeRecords], rfl, by simp⟩
  | succ count ih =>
    unfold writeCookies at h
    split at h
    · cases h
    · next nonce _ =>
      split at h
      · cases h
      · next cookie hmint =>
        obtain ⟨cookies, rfl, hlen, hminted⟩ := ih h
        refine ⟨cookie :: cookies, ?_, ?_, ?_⟩
        · rw [List.map_cons, writeRecords_eq, writeRecords_eq, List.flatMap_cons,
            ← List.append_assoc]
          exact congrArg (· ++ _) (writeRecord_eq out (cookieRecord cookie))
        · rw [List.length_cons, hlen]
        · exact List.forall_mem_cons.mpr ⟨⟨nonce, hmint⟩, hminted⟩

theorem length_minted (hideal : aead.Ideal) {ring : KeyRing} {keys : NtsKeys}
    {cookies : List (List UInt8)}
    (h : ∀ c ∈ cookies, ∃ nonce, Cookie.mint aead ring keys nonce = .ok c) :
    ∀ c ∈ cookies, c.length = 100 := by
  intro c hc
  obtain ⟨nonce, hmint⟩ := h c hc
  obtain ⟨master, sealed, -, hsealed, rfl⟩ := Cookie.mint_eq_ok hmint
  exact Cookie.length_cookie hideal.tagged nonce.length_toList hsealed

/-- With a current key and randomness it does not fail. -/
theorem writeCookies_isOk (hideal : aead.Ideal) {ring : KeyRing} {master : MasterKey}
    (hcurrent : ring.current = some master) (keys : NtsKeys) {random : SystemRandom}
    (hrandom : random.Works) (count i : Nat) (out : List UInt8) :
    ∃ out', writeCookies aead ring keys random count i out = .ok out' := by
  induction count generalizing i out with
  | zero => exact ⟨out, rfl⟩
  | succ count ih =>
    obtain ⟨nonce, hnonce⟩ := Option.isSome_iff_exists.mp (hrandom i 16)
    obtain ⟨sealed, hsealed⟩ := Option.isSome_iff_exists.mp
      (hideal.seals master.key [Cookie.header master nonce.toList] (Cookie.payload keys))
    have hmint : Cookie.mint aead ring keys nonce =
        .ok (Cookie.header master nonce.toList ++ sealed) := by
      unfold Cookie.mint
      rw [hcurrent]
      dsimp only
      rw [hsealed]
    unfold writeCookies
    rw [hnonce]
    dsimp only
    rw [hmint]
    exact ih _ _

/-- **An answer with cookies is a list of records.** -/
theorem keAnswer_ok {s : KeSession} {ntpPort : UInt16} {sent : List UInt8}
    (h : keAnswer aead s ntpPort = .ok sent) :
    ∃ ring keys, s.ring = some ring ∧ s.exportKeys = some keys ∧ ∃ cookies : List (List UInt8),
      sent = writeRecords (answerRecords ntpPort cookies) ∧ cookies.length = keCookieCount ∧
      ∀ c ∈ cookies, ∃ nonce, Cookie.mint aead ring keys nonce = .ok c := by
  have hhead : (if ntpPort ≠ 123 then
        writeRecord (writeRecord (writeRecord [] true RecordType.nextProtocol
          (toBe 2 nextProtoNtpv4.toNat)) true RecordType.aeadAlgorithm
            (toBe 2 aeadAesSivCmac256.toNat)) false RecordType.portNegotiation
              (toBe 2 ntpPort.toNat)
      else writeRecord (writeRecord [] true RecordType.nextProtocol
          (toBe 2 nextProtoNtpv4.toNat)) true RecordType.aeadAlgorithm
            (toBe 2 aeadAesSivCmac256.toNat)) = writeRecords (answerHead ntpPort) := by
    unfold answerHead
    split <;> rfl
  unfold keAnswer at h
  split at h
  · cases h
  · next keys hkeys =>
    dsimp only at h
    split at h
    · cases h
    · next ring hring =>
      split at h
      · cases h
      · next out hwrite =>
        rw [hhead] at hwrite
        obtain ⟨cookies, rfl, hlen, hminted⟩ := writeCookies_ok hwrite
        refine ⟨ring, keys, hring, hkeys, cookies, ?_, hlen, hminted⟩
        rw [← Except.ok.inj h]
        unfold answerRecords
        simp only [writeRecords_eq, List.flatMap_append, List.flatMap_singleton]
        exact writeRecord_eq _ ⟨true, RecordType.endOfMessage, []⟩

theorem keAnswer_isOk (hideal : aead.Ideal) {s : KeSession} {ring : KeyRing} {master : MasterKey}
    {keys : NtsKeys} (hring : s.ring = some ring) (hcurrent : ring.current = some master)
    (hkeys : s.exportKeys = some keys) (hrandom : s.random.Works) (ntpPort : UInt16) :
    ∃ sent, keAnswer aead s ntpPort = .ok sent := by
  unfold keAnswer
  rw [hkeys]
  dsimp only
  rw [hring]
  dsimp only
  -- what can fail after the keys are there is the minting
  obtain ⟨out, hwrite⟩ := writeCookies_isOk hideal hcurrent keys hrandom keCookieCount 0 _
  rw [hwrite]
  exact ⟨_, rfl⟩

/-- Whatever was asked, what is sent is an answer with cookies or the error response. -/
theorem handleKe_ok {s : KeSession} {ntpPort : UInt16} {sent : List UInt8}
    (h : handleKe aead s ntpPort = .ok sent) :
    sent = badRequest ∨ keAnswer aead s ntpPort = .ok sent := by
  unfold handleKe at h
  split at h
  · cases h
  · split at h
    · cases h
    · split at h
      · exact .inl (Except.ok.inj h).symm
      · exact .inr h

/-! ## The client's end -/

/-- The cookies of an answer are collected in order. -/
theorem items_cookies (p : Parsing) (cookies : List (List UInt8))
    (rest : List (Except RecordError Record)) :
    p.items ((cookies.map cookieRecord).map .ok ++ rest) =
      ({ p with parsed := { p.parsed with cookies := p.parsed.cookies ++ cookies } } :
        Parsing).items rest := by
  induction cookies generalizing p with
  | nil =>
    rw [List.append_nil]
    rfl
  | cons c cookies ih =>
    have hend : ¬(cookieRecord c).IsEnd :=
      show RecordType.newCookie ≠ RecordType.endOfMessage by decide
    have hrecord : p.record (cookieRecord c) =
        .ok { p with parsed := { p.parsed with cookies := p.parsed.cookies ++ [c] } } := rfl
    rw [List.map_cons, List.map_cons, List.cons_append, Parsing.items_cons p hend, hrecord]
    dsimp only
    rw [ih]
    dsimp only
    rw [List.append_assoc]
    rfl

/-- **The client reads an answer's cookies and port back.** -/
theorem parseResponse_answer {buf : List UInt8} {ntpPort : UInt16} {cookies : List (List UInt8)}
    (hne : cookies ≠ [])
    (hitems : recordItems buf = (answerRecords ntpPort cookies).map .ok) (host : String)
    (kePort : UInt16) :
    parseResponse buf host kePort = .ok ⟨cookies, host, ntpPort⟩ := by
  have hproto : ¬(⟨true, RecordType.nextProtocol, toBe 2 nextProtoNtpv4.toNat⟩ : Record).IsEnd ∧
      offers (toBe 2 nextProtoNtpv4.toNat) nextProtoNtpv4 = true := by decide
  have haead : ¬(⟨true, RecordType.aeadAlgorithm, toBe 2 aeadAesSivCmac256.toNat⟩ : Record).IsEnd ∧
      offers (toBe 2 aeadAesSivCmac256.toNat) aeadAesSivCmac256 = true := by decide
  have hport : ¬(⟨false, RecordType.portNegotiation, toBe 2 ntpPort.toNat⟩ : Record).IsEnd ∧
      UInt16.ofNat (beNat ((toBe 2 ntpPort.toNat).take 2)) = ntpPort := by
    refine ⟨show RecordType.portNegotiation ≠ RecordType.endOfMessage by decide, ?_⟩
    rw [List.take_of_length_le (length_toBe _ _).le,
      beNat_toBe_of_lt (by have := ntpPort.toNat_lt; omega), UInt16.ofNat_toNat]
  -- behind the head the flags are up and the port is known
  have hhead : ∀ rest, Parsing.items ⟨⟨[], host, 123⟩, false, false⟩
      ((answerHead ntpPort).map .ok ++ rest) =
        (⟨⟨[], host, ntpPort⟩, true, true⟩ : Parsing).items rest := by
    intro rest
    have hflags : ∀ more, Parsing.items ⟨⟨[], host, 123⟩, false, false⟩
        (.ok ⟨true, RecordType.nextProtocol, toBe 2 nextProtoNtpv4.toNat⟩ ::
          .ok ⟨true, RecordType.aeadAlgorithm, toBe 2 aeadAesSivCmac256.toNat⟩ :: more) =
        (⟨⟨[], host, 123⟩, true, true⟩ : Parsing).items more := by
      intro more
      rw [Parsing.items_cons _ hproto.1]
      show (⟨⟨[], host, 123⟩, offers _ _, false⟩ : Parsing).items _ = _
      rw [hproto.2, Parsing.items_cons _ haead.1]
      show (⟨⟨[], host, 123⟩, true, offers _ _⟩ : Parsing).items _ = _
      rw [haead.2]
    unfold answerHead
    split
    · show Parsing.items _ (_ :: _ :: .ok ⟨false, RecordType.portNegotiation, _⟩ :: rest) = _
      rw [hflags, Parsing.items_cons _ hport.1]
      show (⟨⟨[], host, _⟩, true, true⟩ : Parsing).items _ = _
      rw [hport.2]
    · next hdefault =>
      rw [not_not.mp hdefault]
      exact hflags rest
  have hstop : ∀ p : Parsing,
      p.items ([⟨true, RecordType.endOfMessage, []⟩].map .ok) = .ok p := fun p => rfl
  rw [parseResponse_eq, hitems]
  unfold answerRecords
  rw [List.map_append, List.map_append, List.append_assoc, hhead, items_cookies, hstop]
  unfold Parsing.verdict
  simp [hne]

/-! ## A part of the answer -/

/-- The bytes of a read. -/
def KeRead.bytes : KeRead → List UInt8
  | .data chunk => chunk
  | _ => []

/-- What is made of a connection is a part of what came over it. -/
theorem prefix_readMessage {ε : Type} {limit : Nat} {oversized failed : ε} {reads : List KeRead}
    {buf out : List UInt8} (h : readMessage limit oversized failed reads buf = .ok out) :
    out <+: buf ++ reads.flatMap KeRead.bytes := by
  induction reads generalizing buf with
  | nil =>
    cases h
    exact List.prefix_append _ _
  | cons read reads ih =>
    rw [List.flatMap_cons, ← List.append_assoc]
    cases read with
    | unexpectedEof =>
      cases h
      rw [List.append_assoc]
      exact List.prefix_append _ _
    | failed => cases h
    | data chunk =>
      cases chunk with
      | nil =>
        cases h
        rw [List.append_assoc]
        exact List.prefix_append _ _
      | cons b bs =>
        unfold readMessage at h
        dsimp only at h
        split at h
        · cases h
        · split at h
          · cases h
            exact List.prefix_append _ _
          · exact ih h

/-- The bodies of the cookie records among items. -/
def cookieBodies (items : List (Except RecordError Record)) : List (List UInt8) :=
  items.filterMap fun item =>
    match item with
    | .ok r => if r.recordType = RecordType.newCookie then some r.body else none
    | .error _ => none

/-- The client collects the bodies of cookie records, from the first one on. -/
theorem Parsing.prefix_cookies {items : List (Except RecordError Record)} {p p' : Parsing}
    (h : p.items items = .ok p') :
    p'.parsed.cookies <+: p.parsed.cookies ++ cookieBodies items := by
  induction items generalizing p with
  | nil =>
    cases h
    exact List.prefix_append _ _
  | cons item items ih =>
    cases item with
    | error e => cases h
    | ok r =>
      by_cases hr : r.IsEnd
      · have hstop : p.items (.ok r :: items) = .ok p := if_pos hr
        cases hstop.symm.trans h
        exact List.prefix_append _ _
      · rw [Parsing.items_cons p hr] at h
        rcases p.record_cases hr with ⟨-, e, herr⟩ | ⟨-, p₁, hrecord, htakes⟩
        · rw [herr] at h
          cases h
        · rw [hrecord] at h
          have hrest := ih h
          rw [htakes.cookies, List.append_assoc] at hrest
          unfold cookieBodies at hrest ⊢
          rw [List.filterMap_cons]
          split at hrest
          · next hcookie => simpa [hcookie] using hrest
          · next hother => simpa [hother] using hrest

/-- What is accepted has cookies, the first of those in the message. -/
theorem parseResponse_ok {buf : List UInt8} {host : String} {kePort : UInt16} {parsed : Parsed}
    (h : parseResponse buf host kePort = .ok parsed) :
    parsed.cookies ≠ [] ∧ parsed.cookies <+: cookieBodies (recordItems buf) := by
  rw [parseResponse_eq] at h
  split at h
  · cases h
  · next p hitems =>
    have hcookies := Parsing.prefix_cookies hitems
    rw [List.nil_append] at hcookies
    obtain ⟨-, -, hne⟩ := p.verdict_isOk_iff.mp ⟨parsed, h⟩
    have hparsed : p.parsed = parsed := by
      unfold Parsing.verdict at h
      split at h
      · cases h
      · split at h
        · cases h
        · exact Except.ok.inj h
    rw [← hparsed]
    exact ⟨hne, hcookies⟩

theorem cookieBodies_answer (ntpPort : UInt16) (cookies : List (List UInt8)) :
    cookieBodies ((answerRecords ntpPort cookies).map .ok) = cookies := by
  have hhead : cookieBodies ((answerHead ntpPort).map .ok) = [] := by
    unfold answerHead
    split <;> rfl
  have hcookies : cookieBodies ((cookies.map cookieRecord).map .ok) = cookies := by
    unfold cookieBodies
    rw [List.map_map, List.filterMap_map]
    exact List.filterMap_some
  have hend : cookieBodies ([⟨true, RecordType.endOfMessage, []⟩].map .ok) = [] := rfl
  unfold cookieBodies at hhead hcookies hend ⊢
  unfold answerRecords
  rw [List.map_append, List.map_append, List.filterMap_append, List.filterMap_append, hhead,
    hcookies, hend, List.nil_append, List.append_nil]

/-- What a part of a message holds of cookies, the message holds. -/
theorem cookieBodies_part {rs : List Record} (hfits : ∀ r ∈ rs, r.Fits) (hend : EndLast rs)
    {out : List UInt8} (hout : out <+: writeRecords rs) :
    cookieBodies (recordItems out) <+: cookieBodies (rs.map .ok) := by
  obtain ⟨n, hn, rfl⟩ : ∃ n ≤ (writeRecords rs).length, out = (writeRecords rs).take n :=
    ⟨out.length, hout.length_le, List.prefix_iff_eq_take.mp hout⟩
  rcases Nat.lt_or_eq_of_le hn with hcut | rfl
  · obtain ⟨k, -, -, -, hyields⟩ := yields_take hfits hend hcut
    have htail : ∀ items : List (Except RecordError Record), cookieBodies (items ++
        if n = (writeRecords (rs.take k)).length then []
          else [.error (.truncated (writeRecords (rs.take k)).length)]) = cookieBodies items := by
      intro items
      unfold cookieBodies
      split <;> simp
    rw [recordItems_eq hyields, htail, List.map_take]
    exact (List.take_prefix _ _).filterMap _
  · have hitems : recordItems (writeRecords rs) = rs.map .ok := by
      rw [recordItems_eq (yields_writeRecords hfits), untilEnd_of_endLast hend]
    rw [List.take_length]
    exact hitems ▸ List.prefix_rfl

/-! ## Both ends -/

/-- Both messages arrive whole. -/
theorem establish_whole (hideal : aead.Ideal) {s : KeSession} {ring : KeyRing}
    {master : MasterKey} {keys : NtsKeys} (hring : s.ring = some ring)
    (hcurrent : ring.current = some master) (hkeys : s.exportKeys = some keys)
    (hrandom : s.random.Works) (hrequest : Delivers s.reads clientRequest) (ntpPort : UInt16)
    {conn : KeConnection} (halpn : conn.alpnProtocol = some alpn)
    (hc2s : conn.exportKey 0 = some keys.c2s) (hs2c : conn.exportKey 1 = some keys.s2c)
    (host : String) (kePort : UInt16) :
    ∃ sent, handleKe aead s ntpPort = .ok sent ∧ sent ≠ [] ∧
      (Delivers conn.reads sent → ∃ e, Established.establish conn host kePort = .ok e ∧
        e.session.keys = keys ∧ e.ntpServer = host ∧ e.ntpPort = ntpPort ∧ e.keHost = host ∧
        e.session.cookies.length = 8 ∧
        ∀ c ∈ e.session.cookies, ∃ nonce, Cookie.mint aead ring keys nonce = .ok c) := by
  have hfitsRequest : ∀ r ∈ requestRecords, r.Fits := fits_of_forall (by decide)
  obtain ⟨heard, hread, hitems⟩ := hrequest.recordItems_eq KeServerError.oversized .io
    (by decide : _ ≤ 64 * 1024)
  have hhears : s.Hears requestRecords := by
    refine ⟨heard, hread, ?_⟩
    rw [hitems, clientRequest_eq, recordItems_eq (yields_writeRecords hfitsRequest)]
  have hasks : Asks (untilEnd requestRecords) := by
    unfold Asks
    rw [← latest_iff, ← latest_iff]
    decide
  obtain ⟨sent, hanswer⟩ := keAnswer_isOk hideal hring hcurrent hkeys hrandom ntpPort
  have hfirst := (keAnswer_start hanswer).length_le
  refine ⟨sent, ((handleKe_eq hhears aead ntpPort).1 hasks).trans hanswer,
    List.ne_nil_of_length_pos (Nat.lt_of_lt_of_le (by decide) hfirst), fun hdelivered => ?_⟩
  obtain ⟨ring', keys', hring', hkeys', cookies, rfl, hcount, hminted⟩ := keAnswer_ok hanswer
  obtain rfl := Option.some.inj (hring.symm.trans hring')
  obtain rfl := Option.some.inj (hkeys.symm.trans hkeys')
  have hlens := length_minted hideal hminted
  obtain ⟨buf, hbuf, hrecords⟩ := hdelivered.recordItems_eq KeError.malformed .io
    (length_answerRecords ntpPort hcount hlens)
  rw [recordItems_eq (yields_writeRecords fun r hr => (fits_answerRecords ntpPort hlens r hr).1),
    untilEnd_of_endLast (endLast_answerRecords ntpPort cookies)] at hrecords
  have hne : cookies ≠ [] := List.ne_nil_of_length_eq_add_one hcount
  refine ⟨Established.fromKe host ⟨keys, ⟨cookies, host, ntpPort⟩⟩, ?_, rfl, rfl, rfl, rfl, hcount,
    hminted⟩
  have hclient : RustyTime.establish conn host kePort = .ok ⟨keys, ⟨cookies, host, ntpPort⟩⟩ := by
    unfold RustyTime.establish
    rw [show maxKeResponse = 64 * 1024 from rfl, hbuf]
    dsimp only
    rw [if_neg (not_not.mpr halpn), parseResponse_answer hne hrecords host kePort]
    dsimp only
    rw [hc2s, hs2c]
  unfold Established.establish
  rw [hclient]

/-- Whatever part of an answer arrives, and whatever the server made of the request. -/
theorem establish_part (hideal : aead.Ideal) {s : KeSession} {ring : KeyRing} {keys : NtsKeys}
    (hring : s.ring = some ring) (hkeys : s.exportKeys = some keys) {ntpPort : UInt16}
    {sent : List UInt8} (hsent : handleKe aead s ntpPort = .ok sent) {conn : KeConnection}
    (hpart : conn.reads.flatMap KeRead.bytes <+: sent) (hc2s : conn.exportKey 0 = some keys.c2s)
    (hs2c : conn.exportKey 1 = some keys.s2c) {host : String} {kePort : UInt16} {e : Established}
    (he : Established.establish conn host kePort = .ok e) :
    e.session.keys = keys ∧ e.session.cookies ≠ [] ∧ e.session.cookies.length ≤ 8 ∧
      ∀ c ∈ e.session.cookies, ∃ nonce, Cookie.mint aead ring keys nonce = .ok c := by
  unfold Established.establish RustyTime.establish at he
  cases hread : readMessage maxKeResponse KeError.malformed .io conn.reads [] with
  | error _ => rw [hread] at he; cases he
  | ok buf =>
    rw [hread] at he
    dsimp only at he
    by_cases halpn : conn.alpnProtocol ≠ some alpn
    · rw [if_pos halpn] at he
      cases he
    · rw [if_neg halpn, hc2s, hs2c] at he
      cases hparse : parseResponse buf host kePort with
      | error _ => rw [hparse] at he; cases he
      | ok parsed =>
        rw [hparse] at he
        obtain rfl := Except.ok.inj he
        obtain ⟨hne, hcookies⟩ := parseResponse_ok hparse
        have hbuf : buf <+: sent := (List.nil_append _ ▸ prefix_readMessage hread).trans hpart
        rcases handleKe_ok hsent with rfl | hanswer
        · -- the error response brings no cookies
          have hbad := cookieBodies_part (fits_of_forall badRecords_short) (by decide) hbuf
          exact absurd (List.prefix_nil.mp (hcookies.trans hbad)) hne
        · obtain ⟨ring', keys', hring', hkeys', minted, rfl, hcount, hminted⟩ :=
            keAnswer_ok hanswer
          obtain rfl := Option.some.inj (hring.symm.trans hring')
          obtain rfl := Option.some.inj (hkeys.symm.trans hkeys')
          have hlens := length_minted hideal hminted
          have hpart := cookieBodies_part
            (fun r hr => (fits_answerRecords ntpPort hlens r hr).1)
            (endLast_answerRecords ntpPort minted) hbuf
          rw [cookieBodies_answer] at hpart
          have hprefix := hcookies.trans hpart
          exact ⟨rfl, hne, hprefix.length_le.trans hcount.le,
            fun c hc => hminted c (List.IsPrefix.subset hprefix hc)⟩

/--
**Both ends agree.** The ends of a connection export the same keys. If the client's request reaches
a server with a current master key, and the answer reaches the client, each cut into reads in any
way, the client's session has these keys, its NTP server is the host asked with the port the server
names, and it holds eight cookies minted for these keys under the server's ring. And whatever the
server made of the request, and whatever part of its answer arrives, a session that comes of it has
these keys and only such cookies.
-/
theorem establish_agrees (hideal : aead.Ideal) {s : KeSession} {ring : KeyRing}
    {master : MasterKey} {keys : NtsKeys} (hring : s.ring = some ring)
    (hcurrent : ring.current = some master) (hkeys : s.exportKeys = some keys)
    (hrandom : s.random.Works) (ntpPort : UInt16) {conn : KeConnection}
    (halpn : conn.alpnProtocol = some alpn) (hc2s : conn.exportKey 0 = some keys.c2s)
    (hs2c : conn.exportKey 1 = some keys.s2c) (host : String) (kePort : UInt16) :
    (Delivers s.reads clientRequest → ∃ sent, handleKe aead s ntpPort = .ok sent ∧
      (Delivers conn.reads sent → ∃ e, Established.establish conn host kePort = .ok e ∧
        e.session.keys = keys ∧ e.ntpServer = host ∧ e.ntpPort = ntpPort ∧
        e.session.cookies.length = 8 ∧
        ∀ c ∈ e.session.cookies, ∃ nonce, Cookie.mint aead ring keys nonce = .ok c)) ∧
      ∀ sent e, handleKe aead s ntpPort = .ok sent →
        conn.reads.flatMap KeRead.bytes <+: sent → Established.establish conn host kePort = .ok e →
          e.session.keys = keys ∧ e.session.cookies ≠ [] ∧ e.session.cookies.length ≤ 8 ∧
            ∀ c ∈ e.session.cookies, ∃ nonce, Cookie.mint aead ring keys nonce = .ok c := by
  constructor
  · intro hrequest
    obtain ⟨sent, hsent, -, hclient⟩ := establish_whole hideal hring hcurrent hkeys hrandom hrequest
      ntpPort halpn hc2s hs2c host kePort
    refine ⟨sent, hsent, fun hdelivered => ?_⟩
    obtain ⟨e, he, hsame, hserver, hport, -, hcookies⟩ := hclient hdelivered
    exact ⟨e, he, hsame, hserver, hport, hcookies⟩
  · intro sent e hsent hpart he
    exact establish_part hideal hring hkeys hsent hpart hc2s hs2c he

/-- The client's request at the small server. -/
def smallKe : KeSession := ⟨[.data clientRequest], some sessionKeys, some smallRing, zeroRandom⟩

def smallKeAnswer : List UInt8 := (handleKe Aead.checksum smallKe 123).toOption.getD []

def smallConnection (reads : List KeRead) : KeConnection where
  reads := reads
  alpnProtocol := some alpn
  exportKey context := some (if context = 0 then sessionKeys.c2s else sessionKeys.s2c)

/-- A whole answer, and one that breaks off after the third cookie. -/
theorem establish_agrees_small : ∃ e cut,
    Established.establish (smallConnection [.data smallKeAnswer]) "ke" 4460 = .ok e ∧
      e.session.keys = sessionKeys ∧ e.session.cookies.length = 8 ∧
      Established.establish
        (smallConnection [.data (smallKeAnswer.take 324), .unexpectedEof]) "ke" 4460 = .ok cut ∧
      cut.session.cookies.length = 3 ∧ cut.session.keys = sessionKeys := by
  obtain ⟨hwhole, -⟩ := establish_agrees Aead.checksum_ideal (s := smallKe) rfl rfl rfl (fun _ _ => rfl)
    123 (show (smallConnection [.data smallKeAnswer]).alpnProtocol = some alpn from rfl) rfl rfl
    "ke" 4460
  obtain ⟨sent, hsent, hclient⟩ := hwhole (.whole (by decide))
  have hanswer : smallKeAnswer = sent := by
    unfold smallKeAnswer
    rw [hsent]
    rfl
  have hne : smallKeAnswer ≠ [] := by decide +kernel
  obtain ⟨e, he, hkeys, -, -, hcount, -⟩ := hclient (hanswer ▸ .whole hne)
  have hshort : (Established.establish (smallConnection
      [.data (smallKeAnswer.take 324), .unexpectedEof]) "ke" 4460).toOption.map
        (fun e => e.session.cookies.length) = some 3 := by decide +kernel
  obtain ⟨cut, hcut, hthree⟩ := Option.map_eq_some_iff.mp hshort
  have hpart : (smallConnection [.data (smallKeAnswer.take 324), .unexpectedEof]).reads.flatMap
      KeRead.bytes <+: sent := by
    show smallKeAnswer.take 324 ++ [] <+: sent
    rw [List.append_nil, hanswer]
    exact List.take_prefix _ _
  obtain ⟨-, hanypart⟩ := establish_agrees Aead.checksum_ideal (s := smallKe) rfl rfl rfl
    (fun _ _ => rfl) 123 (show (smallConnection
      [.data (smallKeAnswer.take 324), .unexpectedEof]).alpnProtocol = some alpn from rfl) rfl rfl
    "ke" 4460
  obtain ⟨hcutKeys, -⟩ := hanypart sent cut hsent hpart (ok_of_toOption hcut)
  exact ⟨e, cut, he, hkeys, hcount, ok_of_toOption hcut, hthree, hcutKeys⟩

end RustyTime
