import Mathlib.Data.List.Infix
import RustyTime.Daemon.Control
import RustyTime.Infra.Lines

/-!
# The browser gateway

`rusty_time-daemon/src/gateway.rs`: NTP packets in the bodies of HTTP requests. A connection is what
its peer sends and whether it then closes its end; a reader is the lines left of that. The status
page and the asset directory are parameters.
-/

namespace RustyTime

open Infra Control

namespace Gateway

/-- `MAX_HEADER_BYTES`, for the request line, the headers and the body together. -/
def maxHeaderBytes : Nat := 8 * 1024

/-- `MAX_BODY_BYTES`. -/
def maxBodyBytes : Nat := 4 * 1024

/-- A connection. -/
structure Incoming (K : Type) where
  peer : SocketAddr K
  bytes : List UInt8
  /-- After these bytes the stream ends. Otherwise a read runs into the timeout. -/
  closed : Bool

/-- What the gateway gets from its machine while it handles one connection. -/
structure Surroundings (R : Type) where
  wallNs : Option Int
  clock : ClockReadings R
  random : SystemRandom
  statusPage : List UInt8
  /-- What reading a file of the asset directory gives, if there is one. -/
  assets : Option (String → Option (List UInt8))

/-! ## Reading -/

/-- A reader: the lines left, and whether the stream ends after them. -/
structure Reader where
  lines : List (List UInt8)
  ends : Bool

/-- `BufReader::new(stream.take(MAX_HEADER_BYTES))`: at the limit the stream ends. -/
def Reader.new {K : Type} (stream : Incoming K) : Reader where
  lines := Lines.split 10 (stream.bytes.take maxHeaderBytes)
  ends := stream.closed || maxHeaderBytes ≤ stream.bytes.length

/-- `read_line`: a line with its line feed, or what the stream ends in. Nothing unless it is UTF-8,
or if the time runs out. -/
def Reader.readLine (r : Reader) : Option (String × Reader) :=
  match r.lines with
  | [] => if r.ends then some ("", r) else none
  | line :: lines =>
    if line.getLast? = some 10 ∨ r.ends then
      (fromUtf8 line).map fun text => (text, { r with lines := lines })
    else none

/-- `read_exact`. -/
def Reader.readExact (r : Reader) (n : Nat) : Option (List UInt8) :=
  if n ≤ r.lines.flatten.length then some (r.lines.flatten.take n) else none

/-- A line of the head, without its end, may give the length of the body. -/
def headerLength (line : String) (contentLength : Nat) : Nat :=
  match splitOnce ':' line with
  | none => contentLength
  | some (name, value) =>
    if toAsciiLowercase name = "content-length" then (parseUsize (trim value)).getD 0
    else contentLength

/-- The header loop, over the lines left. -/
def readHeaders (ends : Bool) (contentLength : Nat) :
    List (List UInt8) → Option (Nat × List (List UInt8))
  | [] => if ends then some (contentLength, []) else none
  | line :: lines => do
    let (text, _) ← (Reader.mk (line :: lines) ends).readLine
    if trimEnd text = "" then some (contentLength, lines)
    else readHeaders ends (headerLength (trimEnd text) contentLength) lines

/-! ## Writing -/

/-- The reason of a status. -/
def reason (status : Nat) : String :=
  if status = 200 then "OK"
  else if status = 204 then "No Content"
  else if status = 400 then "Bad Request"
  else if status = 404 then "Not Found"
  else if status = 405 then "Method Not Allowed"
  else if status = 429 then "Too Many Requests"
  else "Internal Server Error"

/-- The head that `respond` writes. -/
def responseHead (status : Nat) (contentType : String) (length : Nat) : String :=
  "HTTP/1.1 " ++ toString status ++ " " ++ reason status ++ "\r\n" ++
    "Content-Type: " ++ contentType ++ "\r\n" ++
    "Content-Length: " ++ toString length ++ "\r\n" ++
    "Access-Control-Allow-Origin: *\r\n" ++
    "Access-Control-Allow-Methods: POST, GET, OPTIONS\r\n" ++
    "Access-Control-Allow-Headers: content-type\r\n" ++
    "Cache-Control: no-store\r\n" ++
    "Connection: close\r\n" ++
    "\r\n"

/-- `respond`. -/
def respond (status : Nat) (contentType : String) (body : List UInt8) : List UInt8 :=
  asBytes (responseHead status contentType body.length) ++ body

/-! ## The doors -/

/-- A name that `serve_asset` refuses. -/
def refusedName (name : String) : Bool :=
  name = "" || decide (['.', '.'] <:+: name.toList) || name.toList.contains '/' ||
    name.toList.contains '\\' || name.toList.contains ':'

/-- The type of an asset. -/
def contentTypeOf (name : String) : String :=
  if name.endsWith ".wasm" then "application/wasm"
  else if name.endsWith ".js" then "text/javascript; charset=utf-8"
  else if name.endsWith ".html" then "text/html; charset=utf-8"
  else "application/octet-stream"

def notFound : List UInt8 := respond 404 "text/plain" (asBytes "not found\n")

/-- `serve_asset`. -/
def serveAsset (path : String) (assets : Option (String → Option (List UInt8))) : List UInt8 :=
  match assets with
  | none => notFound
  | some read =>
    let name := String.ofList (path.toList.dropWhile (· = '/'))
    if refusedName name then notFound
    else
      match read name with
      | some bytes => respond 200 (contentTypeOf name) bytes
      | none => notFound

section

variable {K R : Type} [DecidableEq K] [Field R] [LinearOrder R] [FloorRing R] (aead : Aead)

/-- `build_reply`: a poisoned state answers nothing. -/
def buildReply (request : List UInt8) (peer : SocketAddr K) (recvTs : NtpTimestamp)
    (state : Mutex (ServerState K R)) (clock : ClockReadings R) (random : SystemRandom) :
    Mutex (ServerState K R) × Option Reply :=
  match state with
  | .poisoned => (.poisoned, none)
  | .healthy guard =>
    let (guard, reply) := buildReplyIn aead request peer recvTs guard clock random
    (.healthy guard, reply)

/-- `time_exchange`: the state afterwards, and what is written. -/
def timeExchange (r : Reader) (contentLength : Nat) (peer : SocketAddr K)
    (state : Mutex (ServerState K R)) (s : Surroundings R) :
    Mutex (ServerState K R) × List UInt8 :=
  if contentLength = 0 ∨ maxBodyBytes < contentLength then
    (state, respond 400 "text/plain" (asBytes "bad request body length\n"))
  else
    match r.readExact contentLength with
    | none => (state, respond 400 "text/plain" (asBytes "truncated body\n"))
    | some body =>
      match s.wallNs with
      | none => (state, respond 500 "text/plain" (asBytes "clock unavailable\n"))
      | some ns =>
        let recvTs := NtpTimestamp.fromUnix (Int64.ofInt (ns.tdiv 1000000000))
          (UInt32.ofInt (ns.tmod 1000000000))
        match buildReply aead body peer recvTs state s.clock s.random with
        | (state, some reply) =>
          (state, respond 200 "application/octet-stream" reply.bytes.asSlice)
        | (state, none) => (state, respond 429 "text/plain" (asBytes "no reply\n"))

/-- `handle` from the match on: the doors. -/
def route (method path : String) (r : Reader) (contentLength : Nat) (peer : SocketAddr K)
    (state : Mutex (ServerState K R)) (s : Surroundings R) :
    Mutex (ServerState K R) × List UInt8 :=
  if method = "OPTIONS" then (state, respond 204 "text/plain" [])
  else if method = "POST" ∧ "/time".toList <+: path.toList then
    timeExchange aead r contentLength peer state s
  else if method = "GET" ∧ (path = "/" ∨ path = "/index.html") then
    (state, respond 200 "text/html; charset=utf-8" s.statusPage)
  else if method = "GET" then (state, serveAsset path s.assets)
  else (state, respond 405 "text/plain" (asBytes "method not allowed\n"))

/-- `handle`: the state afterwards, and what is written, if anything. -/
def handle (stream : Incoming K) (state : Mutex (ServerState K R)) (s : Surroundings R) :
    Mutex (ServerState K R) × Option (List UInt8) :=
  match (Reader.new stream).readLine with
  | none => (state, none)
  | some (requestLine, r) =>
    if requestLine = "" then (state, none)
    else
      let parts := splitWhitespace requestLine
      match readHeaders r.ends 0 r.lines with
      | none => (state, none)
      | some (contentLength, lines) =>
        let (state, written) := route aead (parts[0]?.getD "") (parts[1]?.getD "/")
          { r with lines := lines } contentLength stream.peer state s
        (state, some written)

end

end Gateway

end RustyTime
