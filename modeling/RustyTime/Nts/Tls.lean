import RustyTime.Nts.Dates

/-!
# Certificates judged at their own time

`rusty_time-nts/src/tls.rs`: `DatesFromTheChain`, the verifier of `nocerttimecheck`. What the
webpki verifier says of a chain, for one server name and OCSP response, is a parameter: it is given
the chain and the Unix second to judge its dates at.
-/

namespace RustyTime

/-- `inner.verify_server_cert`: the end entity, the intermediates, and when. -/
abbrev ServerCertVerifier (Verdict : Type) := List UInt8 → List (List UInt8) → Nat → Verdict

/-- The latest `notBefore` of a chain, if every certificate is then in its window. -/
def chainTime (endEntity : List UInt8) (intermediates : List (List UInt8)) : Option Nat := do
  let w ← (endEntity :: intermediates).mapM Dates.validity
  let start ← (w.map Prod.fst).max?
  let last ← (w.map Prod.snd).min?
  if start ≤ last ∧ 0 ≤ start then some start.toNat else none

/-- `verify_server_cert` of `DatesFromTheChain`: `now` is what the local clock says. -/
def verifyServerCert {Verdict : Type} (inner : ServerCertVerifier Verdict)
    (endEntity : List UInt8) (intermediates : List (List UInt8)) (now : Nat) : Verdict :=
  inner endEntity intermediates ((chainTime endEntity intermediates).getD now)

end RustyTime
