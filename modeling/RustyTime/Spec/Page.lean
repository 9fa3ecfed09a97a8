import RustyTime.Spec.Gateway
import RustyTime.Spec.Measure
import RustyTime.Wasm.TimeClient

/-!
# A page and the server behind the gateway

A page posts its client's request. What it reads of the answer goes back to its client.

* `Answering.Behind` — the gateway's machine while the server builds one reply
* `WallTime.Dated` — a time from the epoch to 2106
-/

namespace RustyTime

open Gateway

/-- A time whose seconds since the epoch fit 32 bits. -/
def WallTime.Dated (t : WallTime) : Prop := 0 ≤ t.ns ∧ t.ns < 4294967296 * 1000000000

end RustyTime
