import RustyTime.Infra.Tlv
import RustyTime.Properties.Dates

/-!
# Certificates

A certificate as RFC 5280 lays it out, in DER, with its two dates apart.

* `Layout` — octets with two dates where a certificate has them
* `Certificate` — what one is made of, `encode` — its octets
* `Certificate.Covers` — the moments in its window
-/

namespace RustyTime

open Infra.Tlv

/-- Octets laid out as a certificate up to its two dates, each a tag and a value. The lengths need
not be the shortest, but have up to four octets. -/
def Layout (der : List UInt8) (before after : UInt8 × List UInt8) : Prop :=
  ∃ cert more tbs signed numbered serial named signature issued issuer dated dates subject more' rest,
    Leads 4 0x30 cert der more ∧ Leads 4 0x30 tbs cert signed ∧
      (numbered = tbs ∨ ∃ version, Leads 4 0xA0 version tbs numbered) ∧
        Leads 4 0x02 serial numbered named ∧ Leads 4 0x30 signature named issued ∧
          Leads 4 0x30 issuer issued dated ∧ Leads 4 0x30 dates dated subject ∧
            Leads 4 before.1 before.2 dates more' ∧ Leads 4 after.1 after.2 more' rest

/-- A date of a certificate, as it is written. -/
structure CertDate where
  stamp : Stamp
  tag : UInt8
  value : List UInt8
  encoded : Encoded stamp tag value

/-- The contents of a certificate's elements. What is after the dates is kept as octets. -/
structure CertParts where
  version : Option (List UInt8)
  serialNumber : List UInt8
  signature : List UInt8
  issuer : List UInt8
  notBefore : CertDate
  notAfter : CertDate
  subject : List UInt8
  signed : List UInt8

namespace CertParts

variable (c : CertParts)

def validity : List UInt8 :=
  element c.notBefore.tag c.notBefore.value ++ element c.notAfter.tag c.notAfter.value

/-- The TBSCertificate. -/
def tbs : List UInt8 :=
  (c.version.map (element 0xA0)).getD [] ++ element 0x02 c.serialNumber ++
    element 0x30 c.signature ++ element 0x30 c.issuer ++ element 0x30 c.validity ++ c.subject

/-- It and the signature over it. -/
def contents : List UInt8 := element 0x30 c.tbs ++ c.signed

end CertParts

/-- A certificate whose length four octets can say. -/
structure Certificate extends CertParts where
  fits : toCertParts.contents.length < 256 ^ 4

namespace Certificate

def encode (c : Certificate) : List UInt8 := element 0x30 c.contents

def first (c : Certificate) : Int := c.notBefore.stamp.unixSecond

def last (c : Certificate) : Int := c.notAfter.stamp.unixSecond

/-- A moment in its window. -/
def Covers (c : Certificate) (t : Int) : Prop := c.first ≤ t ∧ t ≤ c.last

instance (c : Certificate) (t : Int) : Decidable (c.Covers t) :=
  inferInstanceAs (Decidable (c.first ≤ t ∧ t ≤ c.last))

end Certificate

end RustyTime
