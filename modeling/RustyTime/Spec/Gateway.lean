import RustyTime.Daemon.Gateway

/-!
# HTTP at the gateway's door

A message is a head of lines and a body. What is written on either side of the door is read on the
other.

* `headText` — a start line and fields
* `Post` — what a page's browser writes for it
* `answered` — what the server does about the body of one
* `fetch` — what the browser reads of an answer
* `SameDirectory` — file systems that differ only outside the asset directory
-/

namespace RustyTime.Gateway

open Infra Control

/-- A field of a head, without the end of its line. -/
def fieldText (field : String × String) : String := field.1 ++ ":" ++ field.2

/-- The lines of a head, without their ends. -/
def headLines (start : String) (fields : List (String × String)) : List String :=
  start :: fields.map fieldText ++ [""]

/-- A head. Every line of it ends in a carriage return and a line feed. -/
def headText (start : String) (fields : List (String × String)) : String :=
  String.join ((headLines start fields).map (· ++ "\r\n"))

/-- A field that can be told from the others: one line, and a name up to the first colon. -/
def PlainField (field : String × String) : Prop :=
  '\n' ∉ field.1.toList ∧ ':' ∉ field.1.toList ∧ '\n' ∉ field.2.toList

/-- A field that gives the length of the body. -/
def givesLength (field : String × String) : Bool := toAsciiLowercase field.1 = "content-length"

/-- A `POST`. -/
structure Post where
  path : String
  version : String
  fields : List (String × String)
  body : List UInt8

namespace Post

def head (p : Post) : String := headText ("POST" ++ " " ++ p.path ++ " " ++ p.version) p.fields

def text (p : Post) : List UInt8 := asBytes p.head ++ p.body

/-- A post as a browser writes it: its fields give the length of its body. -/
structure Proper (p : Post) : Prop where
  path : "/time".toList <+: p.path.toList
  word : ∀ c ∈ p.path.toList, isWhitespace c = false
  version : '\n' ∉ p.version.toList
  fields : ∀ field ∈ p.fields, PlainField field
  length : ∀ field ∈ p.fields, givesLength field →
    parseUsize (trim field.2) = some p.body.length
  given : ∃ field ∈ p.fields, givesLength field

/-- It fits in what the gateway reads: the head and the body share one limit. -/
structure Fits (p : Post) : Prop where
  ne : p.body ≠ []
  body : p.body.length ≤ maxBodyBytes
  text : p.text.length ≤ maxHeaderBytes

/-- A post with the one field it needs. -/
def plain (body : List UInt8) : Post where
  path := "/time"
  version := "HTTP/1.1"
  fields := [("Content-Length", " " ++ toString body.length)]
  body := body

end Post

section

variable {K R : Type} [DecidableEq K] [Field R] [LinearOrder R] [FloorRing R]

/-- What the gateway writes for the server's answer. -/
def written (reply : Option Reply) : List UInt8 :=
  match reply with
  | some reply => respond 200 "application/octet-stream" reply.bytes.asSlice
  | none => respond 429 "text/plain" (asBytes "no reply\n")

/-- What a server does about a body received at `ns`: as about a datagram received then. -/
def answered (aead : Aead) (body : List UInt8) (peer : SocketAddr K) (ns : Int)
    (guard : ServerState K R) (s : Surroundings R) : Mutex (ServerState K R) × List UInt8 :=
  let recvTs := NtpTimestamp.fromUnix (Int64.ofInt (ns.tdiv 1000000000))
    (UInt32.ofInt (ns.tmod 1000000000))
  let (guard, reply) := buildReplyIn aead body peer recvTs guard s.clock s.random
  (.healthy guard, written reply)

end

/-- A name of a file right in a directory. -/
def FlatName (name : String) : Prop :=
  name ≠ "" ∧ name ≠ ".." ∧ '/' ∉ name.toList ∧ '\\' ∉ name.toList

/-- Two file systems with the same files right in the asset directory. -/
def SameDirectory (read read' : String → Option (List UInt8)) : Prop :=
  ∀ name, FlatName name → read name = read' name

end RustyTime.Gateway
