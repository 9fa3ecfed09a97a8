import RustyTime.Infra.Run
import RustyTime.Infra.Wallet
import RustyTime.Daemon.NtsSession

/-!
# A session's cookies over a run

A run of a session sends requests and is given packets, whatever the network makes of them.
Beside the session stands the record of which cookies went out, and in which genuine replies
cookies came in.
-/

namespace RustyTime

/-- What the server sealed into one reply: the bytes in front of the authenticator, the nonce and
the ciphertext. -/
structure SealedReply where
  front : List UInt8
  nonce : List UInt8
  ciphertext : List UInt8
deriving DecidableEq

/-- The sealed part of a packet, where it has one. -/
def sealedReply (packet : List UInt8) : Option SealedReply :=
  match (Ef.fields packet).find? fun field => field.fieldType = FieldType.ntsAuthenticator with
  | none => none
  | some field =>
    (Ef.authenticatorParts field.body).map fun (nonce, ciphertext) =>
      ⟨packet.take field.offset, nonce, ciphertext⟩

/-- The cookies a sealed reply brings under a key. -/
def SealedReply.cookies (aead : Aead) (s2c : Vector UInt8 32) (reply : SealedReply) :
    List (List UInt8) :=
  ((aead.decrypt s2c [reply.front, reply.nonce] reply.ciphertext).map Ef.newCookies).getD []

namespace NtsSession

inductive Op where
  | protect (random : SystemRandom) (header : Vector UInt8 48)
  | verify (packet : List UInt8)

/-- A session, and what became of its cookies. -/
structure Traced where
  session : NtsSession
  /-- The cookies of the requests that went out, in order. -/
  sent : List (List UInt8)
  /-- The replies that brought cookies into the store. -/
  banked : List SealedReply

def start (session : NtsSession) : Traced := ⟨session, [], []⟩

/-- There is a place left in the store. -/
def HasRoom (s : NtsSession) : Prop := s.cookies.length < targetCookies * 2

instance (s : NtsSession) : Decidable s.HasRoom := inferInstanceAs (Decidable (_ < _))

/-- One call. -/
def Traced.step (aead : Aead) (t : Traced) : Op → Traced
  | .protect random header =>
    match t.session.protect aead random header with
    | (session, .error _) => { t with session := session }
    | (session, .ok _) =>
      { t with
        session := session
        sent := t.sent ++ t.session.cookies.head?.toList }
  | .verify packet =>
    match t.session.verify aead packet with
    | (session, .error _) => { t with session := session }
    | (session, .ok _) =>
      { t with
        session := session
        banked :=
          if session.cookies = t.session.cookies then t.banked
          else t.banked ++ (sealedReply packet).toList }

def run (aead : Aead) (session : NtsSession) (ops : List Op) : Traced :=
  ops.foldl (Traced.step aead) (start session)

end NtsSession

end RustyTime
