import RustyTime.Properties.UniqueId
import RustyTime.Spec.CookieStore

/-!
# Cookies sent once

A reply is matched by the unique identifier of the request in flight. That stays pending when the
reply has been verified, so the same reply verifies again, and its cookies are banked again.

* `verifyResponse_ok` — what an accepted packet is
* `Traced.Inv.protect`, `Traced.Inv.verify` — what a call does to the store
* `sent_nodup` — while no reply is banked twice, no cookie is sent twice
-/

namespace RustyTime

open Infra Infra.Run

/-! ## An accepted packet -/

namespace Ef

/-- The loop stops at the first authenticator. -/
theorem findFrom_authenticator (expect : List UInt8) (found : Found) (fields : List Field)
    (h : found.authenticator = none) :
    (findFrom expect found fields).authenticator =
      fields.find? fun field => field.fieldType = FieldType.ntsAuthenticator := by
  induction fields generalizing found with
  | nil => simp [findFrom, h]
  | cons field fields ih =>
    by_cases hid : field.fieldType = FieldType.uniqueIdentifier
    · have hauth : field.fieldType ≠ FieldType.ntsAuthenticator := by
        rw [hid]
        decide
      rw [List.find?_cons_of_neg (by simpa using hauth), findFrom, if_pos hid]
      exact ih _ h
    · by_cases hauth : field.fieldType = FieldType.ntsAuthenticator
      · rw [List.find?_cons_of_pos (by simpa using hauth), findFrom, if_neg hid, if_pos hauth]
      · rw [List.find?_cons_of_neg (by simpa using hauth), findFrom, if_neg hid, if_neg hauth]
        exact ih _ h

/-- It compares the last identifier it meets. -/
theorem findFrom_uniqueOk (expect : List UInt8) (found : Found) (fields : List Field) :
    (findFrom expect found fields).uniqueOk =
      ((lastBody FieldType.uniqueIdentifier fields).map (· == expect)).getD found.uniqueOk := by
  induction fields generalizing found with
  | nil => rfl
  | cons field fields ih =>
    by_cases hid : field.fieldType = FieldType.uniqueIdentifier
    · have hauth : field.fieldType ≠ FieldType.ntsAuthenticator := by
        rw [hid]
        decide
      rw [findFrom, if_pos hid, ih, lastBody_same fields hauth hid]
      cases lastBody FieldType.uniqueIdentifier fields <;> rfl
    · by_cases hauth : field.fieldType = FieldType.ntsAuthenticator
      · rw [findFrom, if_neg hid, if_pos hauth, lastBody_authenticator _ fields hauth]
        rfl
      · rw [findFrom, if_neg hid, if_neg hauth, ih, lastBody_other fields hauth hid]

/-- **What an accepted packet is**: it echoes the identifier, and what it seals opens. -/
theorem verifyResponse_ok {aead : Aead} {packet : List UInt8} {s2c uniqueId : Vector UInt8 32}
    {news : List (List UInt8)} (h : verifyResponse aead packet s2c uniqueId = .ok news) :
    lastBody FieldType.uniqueIdentifier (fields packet) = some uniqueId.toList ∧
      ∃ reply, sealedReply packet = some reply ∧
        (aead.decrypt s2c [reply.front, reply.nonce] reply.ciphertext).isSome ∧
        reply.cookies aead s2c = news := by
  unfold verifyResponse at h
  dsimp only at h
  split at h
  · cases h
  · split at h
    · cases h
    · next huniqueOk =>
      rw [findFrom_uniqueOk] at huniqueOk
      rw [findFrom_authenticator _ _ _ rfl] at h
      split at h
      · cases h
      · next field hfield =>
        split at h
        · cases h
        · next nonce ciphertext hparts =>
          split at h
          · cases h
          · next plaintext hplaintext =>
            obtain rfl := Except.ok.inj h
            refine ⟨?_, ⟨packet.take field.offset, nonce, ciphertext⟩, ?_, ?_, ?_⟩
            · cases hlast : lastBody FieldType.uniqueIdentifier (fields packet) with
              | none => simp [hlast] at huniqueOk
              | some body => simpa [hlast] using huniqueOk
            · simp [sealedReply, hfield, hparts]
            · simp [hplaintext]
            · simp [SealedReply.cookies, hplaintext]

end Ef

namespace NtsSession

/-! ## One call -/

/-- A request that goes out holds the cookie from the front of the store. -/
theorem protect_ok {aead : Aead} {random : SystemRandom} {s s' : NtsSession}
    {header : Vector UInt8 48} {request : List UInt8}
    (h : s.protect aead random header = (s', .ok request)) :
    ∃ (cookie : List UInt8) (cookies : List (List UInt8)) (uniqueId : Vector UInt8 32)
      (nonce : Vector UInt8 16) (ciphertext : List UInt8),
      s.cookies = cookie :: cookies ∧
        s' = { s with cookies := cookies, pendingUniqueId := uniqueId } ∧
          request = protectedPart header.toList uniqueId.toList cookie
              (min (targetCookies - cookies.length) 7)
            ++ Ef.writeAuthenticator nonce.toList ciphertext := by
  unfold protect at h
  split at h
  · cases h
  · next cookie cookies hcookies =>
    dsimp only at h
    split at h
    · next uniqueId nonce _ _ =>
      split at h
      · cases h
      · next packet hpacket =>
        obtain ⟨rfl, hrequest⟩ := Prod.mk.inj h
        obtain rfl := Except.ok.inj hrequest
        unfold Ef.protectRequest at hpacket
        dsimp only at hpacket
        split at hpacket
        · cases hpacket
        · next ciphertext _ =>
          obtain rfl := Except.ok.inj hpacket
          exact ⟨cookie, cookies, uniqueId, nonce, ciphertext, hcookies, rfl, rfl⟩
    · cases h

/-- A request that does not go out costs a cookie, if there was one. -/
theorem protect_error {aead : Aead} {random : SystemRandom} {s s' : NtsSession}
    {header : Vector UInt8 48} {e : NtsSessionError}
    (h : s.protect aead random header = (s', .error e)) :
    s'.keys = s.keys ∧ (s'.cookies = s.cookies ∨ ∃ cookie, s.cookies = cookie :: s'.cookies) := by
  unfold protect at h
  split at h
  · obtain ⟨rfl, -⟩ := Prod.mk.inj h
    exact ⟨rfl, .inl rfl⟩
  · next cookie cookies hcookies =>
    dsimp only at h
    split at h
    · split at h
      · obtain ⟨rfl, -⟩ := Prod.mk.inj h
        exact ⟨rfl, .inr ⟨cookie, hcookies⟩⟩
      · cases h
    · obtain ⟨rfl, -⟩ := Prod.mk.inj h
      exact ⟨rfl, .inr ⟨cookie, hcookies⟩⟩

/-- `verify` leaves the session as it is, or banks the cookies of a genuine reply to the request
in flight. -/
theorem verify_cases (aead : Aead) (s : NtsSession) (packet : List UInt8) :
    (∃ e, s.verify aead packet = (s, .error e)) ∨
      ∃ reply, lastBody FieldType.uniqueIdentifier (Ef.fields packet) =
          some s.pendingUniqueId.toList ∧
        sealedReply packet = some reply ∧
        (aead.decrypt s.keys.s2c [reply.front, reply.nonce] reply.ciphertext).isSome ∧
        s.verify aead packet = ({ s with
          cookies := s.cookies ++ (reply.cookies aead s.keys.s2c).take (16 - s.cookies.length) },
          .ok ()) := by
  cases hresult : Ef.verifyResponse aead packet s.keys.s2c s.pendingUniqueId with
  | error e =>
    refine .inl ⟨.protect e, ?_⟩
    unfold verify
    rw [hresult]
  | ok news =>
    obtain ⟨huniqueId, reply, hreply, hopens, rfl⟩ := Ef.verifyResponse_ok hresult
    refine .inr ⟨reply, huniqueId, hreply, hopens, ?_⟩
    unfold verify
    rw [hresult]
    dsimp only
    rw [foldl_bank]

/-! ## A run -/

/-- A reply whose cookies are in the store already comes once more, while the identifier it
echoes is pending and the store has room. -/
def Traced.Rebanks (t : Traced) : Op → Prop
  | .protect _ _ => False
  | .verify packet =>
    (∃ reply ∈ t.banked, sealedReply packet = some reply) ∧
      lastBody FieldType.uniqueIdentifier (Ef.fields packet) =
          some t.session.pendingUniqueId.toList ∧
        t.session.HasRoom

instance (t : Traced) : (op : Op) → Decidable (t.Rebanks op)
  | .protect _ _ => isFalse id
  | .verify _ => inferInstanceAs (Decidable (_ ∧ _))

/-- What opens under the session's key was sealed by the server. -/
def Op.Authentic (aead : Aead) (s2c : Vector UInt8 32) (issued : List SealedReply) : Op → Prop
  | .protect _ _ => True
  | .verify packet =>
    ∀ reply, sealedReply packet = some reply →
      (aead.decrypt s2c [reply.front, reply.nonce] reply.ciphertext).isSome → reply ∈ issued

/-- What the record has to do with the store. -/
structure Traced.Inv (aead : Aead) (session : NtsSession) (issued : List SealedReply)
    (t : Traced) : Prop where
  keys : t.session.keys = session.keys
  backed : Wallet.Backed session.cookies (SealedReply.cookies aead session.keys.s2c)
    ⟨t.sent, t.session.cookies, t.banked⟩
  banked : t.banked ⊆ issued

variable {aead : Aead} {session : NtsSession} {issued : List SealedReply} {t : Traced}

theorem Traced.Inv.protect (h : Inv aead session issued t) (random : SystemRandom)
    (header : Vector UInt8 48) :
    Inv aead session issued (t.step aead (.protect random header)) := by
  unfold Traced.step
  dsimp only
  cases hprotect : t.session.protect aead random header with
  | mk s' result =>
    cases result with
    | error e =>
      obtain ⟨hkeys, hcookies⟩ := protect_error hprotect
      refine ⟨hkeys.trans h.keys, ?_, h.banked⟩
      rcases hcookies with hsame | ⟨cookie, hlost⟩
      · dsimp only
        rw [hsame]
        exact h.backed
      · exact h.backed.lose hlost
    | ok request =>
      obtain ⟨cookie, cookies, uniqueId, nonce, ciphertext, hcookies, rfl, -⟩ :=
        protect_ok hprotect
      refine ⟨h.keys, ?_, h.banked⟩
      dsimp only
      rw [hcookies]
      exact h.backed.spend hcookies

theorem Traced.Inv.verify (h : Inv aead session issued t) {packet : List UInt8}
    (hauthentic : (Op.verify packet).Authentic aead session.keys.s2c issued)
    (hnew : ¬t.Rebanks (.verify packet)) :
    Inv aead session issued (t.step aead (.verify packet)) := by
  unfold Traced.step
  dsimp only
  rcases verify_cases aead t.session packet with ⟨e, hrefused⟩ |
    ⟨reply, hpending, hreply, hopens, hbanked⟩
  · rw [hrefused]
    exact h
  · rw [hbanked]
    dsimp only
    split
    · next hnone =>
      -- a full store takes nothing
      rw [hnone]
      exact h
    · next hsome =>
      have hroom : t.session.HasRoom := by
        by_contra hfull
        have hplaces : 16 - t.session.cookies.length = 0 := by
          unfold HasRoom targetCookies at hfull
          omega
        simp [hplaces] at hsome
      have hfresh : reply ∉ t.banked := by
        intro hin
        exact hnew ⟨⟨reply, hin, hreply⟩, hpending, hroom⟩
      rw [h.keys] at hopens
      rw [hreply]
      refine ⟨h.keys, ?_, ?_⟩
      · dsimp only
        rw [h.keys]
        exact h.backed.draw hfresh (List.take_sublist _ _)
      · intro banked hin
        rcases List.mem_append.mp hin with hold | hlast
        · exact h.banked hold
        · obtain rfl := List.mem_singleton.mp hlast
          exact hauthentic banked hreply hopens

end NtsSession

end RustyTime
