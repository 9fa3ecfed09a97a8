import RustyTime.Nts.Cookie

/-!
# The client's NTS session

`rusty_time-daemon/src/nts_session.rs`: the cookie store. A cookie is spent once, by the request
that carries it, and only a verified reply brings new ones. `fill_random` is a parameter: what
its calls, in order, return.
-/

namespace RustyTime

/-- The system's randomness: call `i`, asked for `n` bytes. -/
structure SystemRandom where
  fillRandom : (i n : Nat) → Option (Vector UInt8 n)

/-- Cookies the client aims to hold. -/
def targetCookies : Nat := 8

structure NtsSession where
  keys : NtsKeys
  /-- The unspent cookies, in spend order. -/
  cookies : List (List UInt8)
  /-- The unique identifier of the request in flight. -/
  pendingUniqueId : Vector UInt8 32

inductive NtsSessionError where
  /-- No system randomness. -/
  | ke
  | cookiesExhausted
  | protect (error : NtsError)
deriving DecidableEq

namespace NtsSession

/-- `protect`: the session afterwards, and the request. -/
def protect (aead : Aead) (random : SystemRandom) (s : NtsSession) (header : Vector UInt8 48) :
    NtsSession × Except NtsSessionError (List UInt8) :=
  match s.cookies with
  | [] => (s, .error .cookiesExhausted)
  | cookie :: cookies =>
    let s := { s with cookies := cookies }
    match random.fillRandom 0 uniqueIdLen, random.fillRandom 1 nonceLen with
    | some uniqueId, some nonce =>
      let s := { s with pendingUniqueId := uniqueId }
      let want := min (targetCookies - s.cookies.length) 7
      match Ef.protectRequest aead header.toList uniqueId cookie want s.keys.c2s nonce with
      | .error e => (s, .error (.protect e))
      | .ok packet => (s, .ok packet)
    | _, _ => (s, .error .ke)

/-- `forget_cookies`: the next request asks for key establishment. -/
def forgetCookies (s : NtsSession) : NtsSession := { s with cookies := [] }

/-- What `verify` does with one cookie of the reply. -/
def bank (cookies : List (List UInt8)) (cookie : List UInt8) : List (List UInt8) :=
  if cookies.length < targetCookies * 2 then cookies ++ [cookie] else cookies

/-- `verify`. -/
def verify (aead : Aead) (s : NtsSession) (packet : List UInt8) :
    NtsSession × Except NtsSessionError Unit :=
  match Ef.verifyResponse aead packet s.keys.s2c s.pendingUniqueId with
  | .error e => (s, .error (.protect e))
  | .ok newCookies => ({ s with cookies := newCookies.foldl bank s.cookies }, .ok ())

end NtsSession

end RustyTime
