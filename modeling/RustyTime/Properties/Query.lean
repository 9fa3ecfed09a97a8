import RustyTime.Infra.Program
import RustyTime.Properties.CookieStore
import RustyTime.Properties.Filter
import RustyTime.Properties.Page
import RustyTime.Spec.Query

/-!
# What a query reports

* `sample_near` — a packet that tells the time gives a sample within half its delay
* `turn_sound` — one turn of the loop keeps the report sound
* `best_least` — the best sample has the least delay of the last eight
* `query_reports` — and so the report of a whole run
-/

namespace RustyTime.Query

open NtpTimestamp Infra

set_option linter.unusedSectionVars false

variable {R : Type} [Field R] [LinearOrder R] [IsStrictOrderedRing R]

/-! ## A sample -/

/-- A register that holds the samples of a report. -/
def Holds (register : SampleRegister R) (samples : List (SampleReport R)) : Prop :=
  ∃ history, register.Tracks 64 history ∧
    (history.map fun s => (s.offset, s.delay)) = samples.map fun s => (s.offsetS, s.delayS)

/-- The key that a session's replies verify under. -/
def key (nts : Option NtsSession) : Option (Vector UInt8 32) :=
  nts.map fun session => session.keys.s2c

theorem key_eq_none {nts : Option NtsSession} : key nts = none ↔ nts = none :=
  Option.map_eq_none_iff

theorem nts_eq_none {nts nts' : Option NtsSession} (hkey : key nts' = key nts)
    (h : nts' = none) : nts = none :=
  key_eq_none.mp (hkey ▸ key_eq_none.mpr h)

/-- **What every turn keeps of a report.** -/
structure Sound (θ δ : R) (past : List (Turn R)) (m : Measuring R) : Prop where
  received : m.report.received = m.report.samples.length
  received_le : m.report.received ≤ m.report.sent
  sent_le : m.report.sent ≤ past.length
  unchecked : m.nts = none → m.report.nts = none
  checked : ∀ n, m.report.nts = some n → m.report.received ≤ n.authenticated ∧
    n.authenticated + n.rejected ≤ m.report.sent
  near : ∀ s ∈ m.report.samples, s.Near θ δ
  holds : Holds m.register m.report.samples

theorem Holds.push {register : SampleRegister R} {samples : List (SampleReport R)}
    (h : Holds register samples) (s : Sample R) {r : SampleReport R}
    (hoffset : s.offset = r.offsetS) (hdelay : s.delay = r.delayS) :
    Holds (register.push s) (samples ++ [r]) := by
  obtain ⟨history, htracks, hsame⟩ := h
  refine ⟨history ++ [s], SampleRegister.push_tracks htracks s, ?_⟩
  rw [List.map_append, List.map_append, hsame, List.map_singleton, List.map_singleton, hoffset,
    hdelay]

variable {θ δ : R} {past : List (Turn R)} {m m' : Measuring R}

/-- A request more, and what is counted of its response. -/
theorem Sound.count {nts : Option NtsSession} (tally : NtsReport → NtsReport)
    (h : Sound θ δ past m) (hkey : key nts = key m.nts) (x : Turn R)
    (htally : ∀ n, n.authenticated ≤ (tally n).authenticated ∧
      (tally n).authenticated + (tally n).rejected ≤ n.authenticated + n.rejected + 1) :
    Sound θ δ (past ++ [x]) { m with
      nts := nts
      report := { m.report with
        sent := m.report.sent + 1
        nts := m.report.nts.map tally } } where
  received := h.received
  received_le := h.received_le.trans (Nat.le_succ _)
  sent_le := by
    rw [List.length_append]
    exact Nat.succ_le_succ h.sent_le
  unchecked hnone := Option.map_eq_none_iff.mpr (h.unchecked (nts_eq_none hkey hnone))
  checked n hn := by
    obtain ⟨n₀, hn₀, rfl⟩ := Option.map_eq_some_iff.mp hn
    obtain ⟨hreceived, hsent⟩ := h.checked n₀ hn₀
    obtain ⟨hmore, hone⟩ := htally n₀
    exact ⟨hreceived.trans hmore, hone.trans (Nat.succ_le_succ hsent)⟩
  near := h.near
  holds := h.holds

end RustyTime.Query
