import RustyTime.Daemon.KeServer
import RustyTime.Properties.KeResponse

/-!
# Critical records at both ends

The client turns an unrecognized critical record down wherever it stands. The server's loop passes
over it, so a request with one is answered as the same request without it.

* `readMessage_chunks` — however a message is cut into reads, its records are heard
* `handleKe_eq` — the answer is decided by the two negotiation flags
* `critical_refused_iff` — both ends, every sequence of records
-/

namespace RustyTime

open Infra.Bytes Infra.Iter

/-- A critical record of no type the protocol defines. -/
def Record.Unrecognized (r : Record) : Prop := ¬r.Known ∧ r.critical = true

instance (r : Record) : Decidable r.Unrecognized := inferInstanceAs (Decidable (_ ∧ _))

variable {r : Record}

/-! ## What is heard -/

/-- The peer's side ends after the last chunk. -/
inductive Closing : List KeRead → Prop
  | closed : Closing []
  | eof : Closing [.data []]
  | unexpectedEof : Closing [.unexpectedEof]

/-- However a message is cut into reads, its records are what is heard. -/
theorem readMessage_chunks {ε : Type} (limit : Nat) (oversized failed : ε)
    {chunks : List (List UInt8)} (hne : ∀ c ∈ chunks, c ≠ [])
    {closing : List KeRead} (hclosing : Closing closing) {buf : List UInt8}
    (hlen : (buf ++ chunks.flatten).length ≤ limit) :
    ∃ out, readMessage limit oversized failed (chunks.map .data ++ closing) buf = .ok out ∧
      recordItems out = recordItems (buf ++ chunks.flatten) := by
  induction chunks generalizing buf with
  | nil =>
    rw [List.flatten_nil, List.append_nil, List.map_nil, List.nil_append]
    cases hclosing <;> exact ⟨buf, rfl, rfl⟩
  | cons chunk chunks ih =>
    obtain ⟨b, bs, rfl⟩ := List.exists_cons_of_ne_nil (hne chunk List.mem_cons_self)
    rw [List.flatten_cons, ← List.append_assoc] at hlen ⊢
    have hfits : ¬limit < (buf ++ b :: bs).length := by
      rw [List.length_append] at hlen
      omega
    rw [List.map_cons, List.cons_append, readMessage, if_neg hfits]
    by_cases hend : hasEndOfMessage (buf ++ b :: bs) = true
    · rw [if_pos hend]
      exact ⟨_, rfl, (recordItems_append hend _).symm⟩
    · rw [if_neg hend]
      exact ih (fun c hc => hne c (List.mem_cons_of_mem _ hc)) hlen

/-- The server has read a message of these records. -/
def KeSession.Hears (s : KeSession) (rs : List Record) : Prop :=
  ∃ buf, readMessage (64 * 1024) KeServerError.oversized .io s.reads [] = .ok buf ∧
    recordItems buf = (untilEnd rs).map .ok

/-- A sequence of records within the server's limit is heard, in any chunks. -/
theorem hears_of_chunks {s : KeSession} {rs : List Record} (hfits : ∀ r ∈ rs, r.Fits)
    {chunks : List (List UInt8)} (hne : ∀ c ∈ chunks, c ≠ []) {closing : List KeRead}
    (hclosing : Closing closing) (hreads : s.reads = chunks.map .data ++ closing)
    (hchunks : chunks.flatten = writeRecords rs) (hlen : (writeRecords rs).length ≤ 64 * 1024) :
    s.Hears rs := by
  have hfit : ([] ++ chunks.flatten).length ≤ 64 * 1024 := by rwa [hchunks]
  obtain ⟨out, hout, hitems⟩ :=
    readMessage_chunks (64 * 1024) KeServerError.oversized .io hne hclosing hfit
  refine ⟨out, by rwa [hreads], ?_⟩
  rw [hitems, List.nil_append, hchunks]
  exact recordItems_eq (yields_writeRecords hfits)

/-! ## The client -/

/-- A record the client turns down, anywhere in an answer, is the end of it. -/
theorem parseResponse_refused {buf : List UInt8} (hmem : .ok r ∈ recordItems buf)
    (hr : r.Refused) (hnot : ¬r.IsEnd) (host : String) (kePort : UInt16) :
    ∃ e, parseResponse buf host kePort = .error e := by
  obtain ⟨rs, tail, hitems, hend, htail⟩ := exists_ending buf
  rw [hitems, List.mem_append] at hmem
  have hin : r ∈ rs := by
    rcases hmem with hmem | hmem
    · obtain ⟨r', hmem', heq⟩ := List.mem_map.mp hmem
      cases heq
      exact hmem'
    · cases htail with
      | unfinished => cases hmem
      | finished r' hr' =>
        cases List.mem_singleton.mp hmem
        exact absurd hr' hnot
      | cut e => cases List.mem_singleton.mp hmem
  obtain ⟨e, herr⟩ := Parsing.items_refused ⟨r, hin, hr⟩ hend ⟨⟨[], host, 123⟩, false, false⟩ tail
  refine ⟨e, ?_⟩
  rw [parseResponse_eq, hitems, herr]

/-! ## The server -/

/-- The negotiation loop never fails on whole records. -/
theorem Negotiation.items_ok (n : Negotiation) (rs : List Record) :
    n.items (rs.map .ok) =
      .ok ⟨latest RecordType.nextProtocol nextProtoNtpv4 n.protoOk rs,
        latest RecordType.aeadAlgorithm aeadAesSivCmac256 n.aeadOk rs⟩ := by
  induction rs generalizing n with
  | nil => rfl
  | cons r rs ih =>
    have hrecord : n.record r =
        ⟨if r.recordType = RecordType.nextProtocol then offers r.body nextProtoNtpv4
          else n.protoOk,
        if r.recordType = RecordType.aeadAlgorithm then offers r.body aeadAesSivCmac256
          else n.aeadOk⟩ := by
      unfold Negotiation.record
      by_cases hproto : r.recordType = RecordType.nextProtocol
      · have haead : r.recordType ≠ RecordType.aeadAlgorithm := by rw [hproto]; decide
        rw [if_pos hproto, if_pos hproto, if_neg haead]
      · rw [if_neg hproto, if_neg hproto]
        split <;> rfl
    rw [List.map_cons, Negotiation.items, ih, hrecord]
    rfl

/-- Cookies are written behind what is there. -/
theorem prefix_writeCookies {aead : Aead} {ring : KeyRing} {keys : NtsKeys} {random : SystemRandom}
    {count i : Nat} {out out' : List UInt8}
    (h : writeCookies aead ring keys random count i out = .ok out') : out <+: out' := by
  induction count generalizing i out with
  | zero =>
    cases h
    exact List.prefix_rfl
  | succ count ih =>
    unfold writeCookies at h
    split at h
    · cases h
    · split at h
      · cases h
      · refine List.IsPrefix.trans ?_ (ih h)
        unfold writeRecord
        simp only [List.append_assoc]
        exact List.prefix_append _ _

theorem prefix_writeRecord (out : List UInt8) (critical : Bool) (recordType : UInt16)
    (body : List UInt8) : out <+: writeRecord out critical recordType body := by
  unfold writeRecord
  simp only [List.append_assoc]
  exact List.prefix_append _ _

/-- An answer with cookies begins with NEXT_PROTOCOL. -/
theorem keAnswer_start {aead : Aead} {s : KeSession} {ntpPort : UInt16} {sent : List UInt8}
    (h : keAnswer aead s ntpPort = .ok sent) :
    writeRecord [] true RecordType.nextProtocol (toBe 2 nextProtoNtpv4.toNat) <+: sent := by
  unfold keAnswer at h
  split at h
  · cases h
  · dsimp only at h
    split at h
    · cases h
    · split at h
      · cases h
      · next hcookies =>
        cases h
        refine List.IsPrefix.trans ?_
          ((prefix_writeCookies hcookies).trans (prefix_writeRecord _ _ _ _))
        split
        · exact (prefix_writeRecord _ _ _ _).trans (prefix_writeRecord _ _ _ _)
        · exact prefix_writeRecord _ _ _ _

/-- So it is not the error response. -/
theorem keAnswer_ne_badRequest (aead : Aead) (s : KeSession) (ntpPort : UInt16) :
    keAnswer aead s ntpPort ≠ .ok badRequest := by
  intro h
  exact absurd (keAnswer_start h) (by decide)

/-- What is asked for. -/
def Asks (rs : List Record) : Prop :=
  LastOffers RecordType.nextProtocol nextProtoNtpv4 rs ∧
    LastOffers RecordType.aeadAlgorithm aeadAesSivCmac256 rs

/-- The answer to a message heard: cookies if it asks for what the server speaks, and the error
response if not. -/
theorem handleKe_eq {s : KeSession} {rs : List Record} (h : s.Hears rs) (aead : Aead)
    (ntpPort : UInt16) :
    (Asks (untilEnd rs) → handleKe aead s ntpPort = keAnswer aead s ntpPort) ∧
      (¬Asks (untilEnd rs) → handleKe aead s ntpPort = .ok badRequest) := by
  obtain ⟨buf, hread, hitems⟩ := h
  unfold handleKe Asks
  rw [hread]
  dsimp only
  rw [hitems, Negotiation.items_ok, ← latest_iff, ← latest_iff]
  dsimp only
  constructor
  · rintro ⟨hproto, haead⟩
    rw [if_neg (by rw [hproto, haead]; decide)]
  · intro hnot
    rw [if_pos]
    by_contra hboth
    obtain ⟨hproto, haead⟩ := not_or.mp hboth
    exact hnot ⟨Bool.eq_true_of_not_eq_false hproto, Bool.eq_true_of_not_eq_false haead⟩

/--
**Unrecognized critical records at the two ends.** Whatever the other records are and wherever it
stands before the end of the message, the client turns the answer down. The server sends its error
response exactly if the request does not ask for what the server speaks, with or without that
record; a request that does is answered as if the record were not there.
-/
theorem critical_refused_iff {rs : List Record} (hfits : ∀ r ∈ rs, r.Fits)
    (hcritical : ∃ r ∈ untilEnd rs, r.Unrecognized) :
    (∀ host kePort, ∃ e, parseResponse (writeRecords rs) host kePort = .error e) ∧
      ∀ (aead : Aead) (s : KeSession) (ntpPort : UInt16), s.Hears rs →
        (handleKe aead s ntpPort = .ok badRequest ↔ ¬Asks (untilEnd rs)) ∧
        (Asks (untilEnd rs) → handleKe aead s ntpPort = keAnswer aead s ntpPort) := by
  obtain ⟨r, hmem, hr⟩ := hcritical
  constructor
  · intro host kePort
    have hitem : .ok r ∈ recordItems (writeRecords rs) := by
      rw [recordItems_eq (yields_writeRecords hfits)]
      exact List.mem_map_of_mem hmem
    refine parseResponse_refused hitem (.inr (.inr hr)) (fun hend => hr.1 ?_) host kePort
    unfold Record.Known
    rw [show r.recordType = RecordType.endOfMessage from hend]
    decide
  · intro aead s ntpPort hheard
    obtain ⟨hasks, hnot⟩ := handleKe_eq hheard aead ntpPort
    refine ⟨⟨fun hbad hask => ?_, hnot⟩, hasks⟩
    rw [hasks hask] at hbad
    exact keAnswer_ne_badRequest aead s ntpPort hbad

/-! ### Two requests -/

/-- What the client asks for, with a critical record of type 0x4242 in front. -/
def criticalRequest : List Record :=
  [⟨true, 0x4242, [0]⟩, ⟨true, RecordType.nextProtocol, [0, 0]⟩,
    ⟨true, RecordType.aeadAlgorithm, [0, 15]⟩, ⟨true, RecordType.endOfMessage, []⟩]

/-- A server with one master key, that has read `request`. -/
def keSession (request : List Record) : KeSession where
  reads := [.data (writeRecords request)]
  exportKeys := some ⟨Vector.replicate 32 3, Vector.replicate 32 4⟩
  ring := some ((KeyRing.new 3).rotateIn ⟨7, Vector.replicate 32 1⟩)
  random := ⟨fun _ n => some (Vector.replicate n 5)⟩

/-- The same request without its offer of an AEAD. -/
def unaskedRequest : List Record := criticalRequest.take 2 ++ criticalRequest.drop 3

theorem critical_refused_iff_unasked :
    (∃ e, parseResponse (writeRecords unaskedRequest) "ke" 4460 = .error e) ∧
      handleKe .checksum (keSession unaskedRequest) 123 = .ok badRequest := by
  have hfits : ∀ r ∈ unaskedRequest, r.Fits := by
    have hall : ∀ r ∈ unaskedRequest, r.recordType < 0x8000 ∧ r.body.length ≤ maxRecordBody := by
      decide
    exact fun r hr => ⟨(hall r hr).1, (hall r hr).2⟩
  have hne : ∀ chunk ∈ [writeRecords unaskedRequest], chunk ≠ [] := by decide
  have hheard : (keSession unaskedRequest).Hears unaskedRequest :=
    hears_of_chunks hfits hne .closed rfl List.flatten_singleton (by decide)
  obtain ⟨hclient, hserver⟩ := critical_refused_iff hfits (by decide)
  refine ⟨hclient "ke" 4460, (hserver .checksum _ 123 hheard).1.mpr ?_⟩
  unfold Asks
  rw [← latest_iff, ← latest_iff]
  decide

/-- The server answers the request with cookies. -/
theorem not_critical_refused :
    (∃ r ∈ untilEnd criticalRequest, r.Unrecognized) ∧
      (handleKe .checksum (keSession criticalRequest) 123).toOption.map (fun sent =>
        ((wholeRecords sent).filter (·.recordType = RecordType.newCookie)).length) = some 8 := by
  decide +kernel

end RustyTime
