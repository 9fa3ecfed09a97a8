import RustyTime.Daemon.KeServer

/-!
# A session from key establishment

`rusty_time-daemon/src/nts_session.rs`, `establish` and `from_ke`, and `resume`. What `protect` and
`verify` work on is the `NtsSession`; where the session came from and where its NTP server is stand
beside it.
-/

namespace RustyTime

/-- The whole `NtsSession` of the source. -/
structure Established where
  session : NtsSession
  ntpServer : String
  ntpPort : UInt16
  keHost : String

namespace Established

/-- `from_ke`. -/
def fromKe (keHost : String) (result : KeResult) : Established where
  session :=
    { keys := result.keys, cookies := result.parsed.cookies
      pendingUniqueId := .replicate uniqueIdLen 0 }
  ntpServer := result.parsed.ntpServer
  ntpPort := result.parsed.ntpPort
  keHost := keHost

/-- `establish`, over the connection it opens. -/
def establish (conn : KeConnection) (keHost : String) (kePort : UInt16) :
    Except KeError Established :=
  match RustyTime.establish conn keHost kePort with
  | .error e => .error e
  | .ok result => .ok (fromKe keHost result)

/-- `resume`: a session from saved state. -/
def resume (keys : NtsKeys) (cookies : List (List UInt8)) (ntpServer : String) (ntpPort : UInt16)
    (keHost : String) : Established where
  session := { keys := keys, cookies := cookies, pendingUniqueId := .replicate uniqueIdLen 0 }
  ntpServer := ntpServer
  ntpPort := ntpPort
  keHost := keHost

end Established

end RustyTime
