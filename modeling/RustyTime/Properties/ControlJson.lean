import RustyTime.Spec.Control

/-!
# The JSON of the control plane

* `ControlResponse.ofJson_toJson` — an answer is read back exactly if its numbers are finite
* `ControlRequest.ofJson_toJson` — every request is read back
* `ControlResponse.length_le` — no answer but a list of key ids is too long for the client
* `ControlResponse.length_ntsData` — how long that one is
-/

namespace RustyTime

open Infra Infra.Ieee

/-! ## Fields -/

section

variable {R : Type}

@[simp] theorem boolOfJson_bool (b : Bool) : boolOfJson (R := R) (.bool b) = some b := rfl

@[simp] theorem stringOfJson_string (s : String) : stringOfJson (R := R) (.string s) = some s := rfl

theorem intOfJson_int {lo hi n : Int} (h : lo ≤ n ∧ n ≤ hi) :
    intOfJson (R := R) lo hi (.int n) = some n := if_pos h

@[simp] theorem u64OfJson_toJson (n : UInt64) : u64OfJson (R := R) (u64ToJson n) = some n := by
  have hlt := n.toNat_lt
  unfold u64OfJson u64ToJson
  rw [intOfJson_int (by omega), Option.map_some, Int.toNat_natCast, UInt64.ofNat_toNat]

@[simp] theorem u32OfJson_toJson (n : UInt32) : u32OfJson (R := R) (u32ToJson n) = some n := by
  have hlt := n.toNat_lt
  unfold u32OfJson u32ToJson
  rw [intOfJson_int (by omega), Option.map_some, Int.toNat_natCast, UInt32.ofNat_toNat]

@[simp] theorem u8OfJson_toJson (n : UInt8) : u8OfJson (R := R) (u8ToJson n) = some n := by
  have hlt := n.toNat_lt
  unfold u8OfJson u8ToJson
  rw [intOfJson_int (by omega), Option.map_some, Int.toNat_natCast, UInt8.ofNat_toNat]

@[simp] theorem i8OfJson_toJson (n : Int8) : i8OfJson (R := R) (i8ToJson n) = some n := by
  have hle := n.toInt_lt
  have hge := n.le_toInt
  unfold i8OfJson i8ToJson
  rw [intOfJson_int (by omega), Option.map_some, Int8.ofInt_toInt]

/-- A number is read back unless it is one that JSON lacks. -/
@[simp] theorem f64OfJson_toJson [IntCast R] (a : F64 R) :
    f64OfJson (f64ToJson a) = if a.isFinite then some a else none := by
  cases a <;> rfl

/-- A list is read back exactly if its members are. -/
theorem vecOfJson_map_iff {α : Type} {toJson : α → Json R} {ofJson : Json R → Option α}
    {p : α → Bool} (h : ∀ x, ofJson (toJson x) = if p x then some x else none) (xs : List α) :
    vecOfJson ofJson (.array (xs.map toJson)) = some xs ↔ ∀ x ∈ xs, p x = true := by
  show (xs.map toJson).mapM ofJson = some xs ↔ _
  induction xs with
  | nil => simp
  | cons x xs ih =>
    rw [List.map_cons, List.mapM_cons, h x, List.forall_mem_cons, ← ih]
    cases hx : p x with
    | false => simp
    | true => cases hxs : (xs.map toJson).mapM ofJson <;> simp

end

/-! ## Reports -/

section

variable {R : Type} [IntCast R]

theorem TrackingReport.ofFields_toFields (r : TrackingReport R) (tag : Json R) :
    TrackingReport.ofFields (("result", tag) :: r.toFields) =
      if r.offsetS.isFinite ∧ r.freqPpm.isFinite ∧ r.errorBoundS.isFinite then some r
      else none := by
  simp [ofFields, toFields, field]
  cases r.offsetS.isFinite with
  | false => simp
  | true =>
    cases r.freqPpm.isFinite with
    | false => simp
    | true => cases r.errorBoundS.isFinite <;> simp

omit [IntCast R] in
theorem ServerStatsReport.ofFields_toFields (r : ServerStatsReport) (tag : Json R) :
    ServerStatsReport.ofFields (("result", tag) :: r.toFields) = some r := by
  simp [ofFields, toFields, field]

theorem ClientRow.ofJson_toJson (r : ClientRow R) :
    ClientRow.ofJson r.toJson = if r.lastSeenAgoS.isFinite then some r else none := by
  simp [ofJson, ofFields, toJson, field]
  cases r.lastSeenAgoS.isFinite <;> simp

/-! ## Requests and answers -/

omit [IntCast R] in
/-- **Every request is read back.** -/
theorem ControlRequest.ofJson_toJson (request : ControlRequest) :
    ControlRequest.ofJson (R := R) request.toJson = some request := by
  cases request <;> simp [ofJson, toJson, field, ofTag]

/-- **An answer is read back exactly if its numbers are finite.** -/
theorem ControlResponse.ofJson_toJson (response : ControlResponse R) :
    ControlResponse.ofJson response.toJson = some response ↔
      ∀ x ∈ response.numbers, x.isFinite = true := by
  cases response with
  | serverStats report =>
    have hback := ServerStatsReport.ofFields_toFields report (.string "server_stats" : Json R)
    have htag : field (("result", (.string "server_stats" : Json R)) :: report.toFields) "result"
        stringOfJson = some "server_stats" := by
      simp [field, ServerStatsReport.toFields]
    simp [ofJson, toJson, htag, ofTag, hback, numbers]
  | clients rows =>
    have hrows := vecOfJson_map_iff ClientRow.ofJson_toJson rows
    simp [ofJson, toJson, field, ofTag, numbers, hrows]
  | ntsData ids =>
    have hids : vecOfJson u32OfJson (.array (ids.map u32ToJson) : Json R) = some ids :=
      (vecOfJson_map_iff (p := fun _ => true) (by simp) ids).mpr (by simp)
    simp [ofJson, toJson, field, ofTag, numbers, hids]
  | tracking report =>
    have hback := TrackingReport.ofFields_toFields report (.string "tracking")
    have htag : field (("result", .string "tracking") :: report.toFields) "result"
        stringOfJson = some "tracking" := by
      simp [field, TrackingReport.toFields]
    simp [ofJson, toJson, htag, ofTag, hback, numbers]
  | pong version => simp [ofJson, toJson, field, ofTag, numbers]
  | error message => simp [ofJson, toJson, field, ofTag, numbers]

end

/-! ## Texts -/

open Json

section

variable {R : Type} {number : R → List Char}

theorem ControlRequest.allPlain_toJson (request : ControlRequest) :
    allPlain (request.toJson : Json R) = true := by
  cases request <;> simp only [toJson, u64ToJson, allPlain, allPlainFields] <;> decide

/-- The strings of an answer that the source does not spell out. -/
def ControlResponse.texts : ControlResponse R → List String
  | .clients rows => rows.map (·.address)
  | .pong version => [version]
  | .error message => [message]
  | _ => []

theorem f64_allPlain (a : F64 R) : allPlain (f64ToJson a) = true := by
  cases a <;> rfl

theorem ControlResponse.allPlain_toJson {response : ControlResponse R}
    (h : ∀ s ∈ response.texts, plain s = true) : allPlain response.toJson = true := by
  cases response with
  | serverStats report =>
    simp only [toJson, ServerStatsReport.toFields, u64ToJson, u8ToJson, allPlain, allPlainFields]
    decide
  | clients rows =>
    have hrow : ∀ row ∈ rows, allPlain row.toJson = true := by
      intro row hrow
      have haddress := h row.address (List.mem_map_of_mem hrow)
      simp only [ClientRow.toJson, u64ToJson, allPlain, allPlainFields, f64_allPlain, haddress]
      decide
    have hrows : allPlainElems (rows.map (·.toJson)) = true := by
      rw [allPlainElems_eq, List.all_map]
      exact List.all_eq_true.mpr hrow
    simp only [toJson, allPlain, allPlainFields, hrows]
    decide
  | ntsData ids =>
    have hids : allPlainElems (ids.map (u32ToJson (R := R))) = true := by
      rw [allPlainElems_eq, List.all_map]
      exact List.all_eq_true.mpr fun _ _ => rfl
    simp only [toJson, allPlain, allPlainFields, hids]
    decide
  | tracking report =>
    simp only [toJson, TrackingReport.toFields, i8ToJson, allPlain, allPlainFields, f64_allPlain]
    decide
  | pong version =>
    have hversion := h version List.mem_cons_self
    simp only [toJson, allPlain, allPlainFields, hversion]
    decide
  | error message =>
    have hmessage := h message List.mem_cons_self
    simp only [toJson, allPlain, allPlainFields, hmessage]
    decide

/-! ## Lengths -/

theorem length_toString_le {n k : Nat} (hk : 0 < k) (h : n < 10 ^ k) :
    (toString n).toList.length ≤ k := by
  rw [show (toString n).toList = Nat.toDigits 10 n from Nat.toList_repr]
  exact (Nat.length_toDigits_le_iff (by decide) hk).mpr h

theorem length_u64_le (number : R → List Char) (n : UInt64) :
    (write number (u64ToJson n)).length ≤ 20 := by
  have hlt := n.toNat_lt
  exact length_toString_le (by decide) (by omega)

theorem length_u8_le (number : R → List Char) (n : UInt8) :
    (write number (u8ToJson n)).length ≤ 3 := by
  have hlt := n.toNat_lt
  exact length_toString_le (by decide) (by omega)

theorem length_i8_le (number : R → List Char) (n : Int8) :
    (write number (i8ToJson n)).length ≤ 4 := by
  have hlt := n.toInt_lt
  have hle := n.le_toInt
  show (toString n.toInt).toList.length ≤ 4
  have hdigits := (Nat.length_toDigits_le_iff (n := n.toInt.natAbs) (k := 3)
    (show 1 < 10 by decide) (by decide)).mpr (by omega)
  rw [toList_toString_int]
  split
  · rw [List.length_cons]
    omega
  · omega

theorem length_f64_le {a : F64 R} (h : ∀ x, a = .finite x → (number x).length ≤ 24) :
    (write number (f64ToJson a)).length ≤ 24 := by
  cases a with
  | finite x => exact h x rfl
  | infinite negative => exact (by decide : 4 ≤ 24)
  | nan => exact (by decide : 4 ≤ 24)

theorem length_bool_le (number : R → List Char) (b : Bool) :
    (write number (.bool b)).length ≤ 5 := by
  cases b
  · exact le_refl 5
  · exact (by decide : 4 ≤ 5)

theorem ControlRequest.length_le (request : ControlRequest) :
    (write number (request.toJson : Json R)).length ≤ 100 := by
  cases request with
  | clients limit =>
    have hlimit := length_u64_le number limit
    simp (disch := decide) [toJson, write, writeFields, length_quote]
    omega
  | _ => simp (disch := decide) [toJson, write, writeFields, length_quote]

theorem ServerStatsReport.length_le (report : ServerStatsReport) :
    (write number (ControlResponse.serverStats report : ControlResponse R).toJson).length ≤
      500 := by
  have hrequests := length_u64_le number report.ntpRequests
  have hresponses := length_u64_le number report.ntpResponses
  have hdropped := length_u64_le number report.droppedRateLimit
  have hkiss := length_u64_le number report.kissOfDeath
  have hinterleaved := length_u64_le number report.interleavedResponses
  have hrefused := length_u64_le number report.refused
  have htracked := length_u64_le number report.clientsTracked
  have hevicted := length_u64_le number report.clientsEvicted
  have huptime := length_u64_le number report.uptimeS
  have hstratum := length_u8_le number report.stratum
  simp (disch := decide) [ControlResponse.toJson, toFields, write, writeFields, length_quote]
  omega

theorem TrackingReport.length_le {report : TrackingReport R}
    (h : ∀ a ∈ [report.offsetS, report.freqPpm, report.errorBoundS],
      ∀ x, a = .finite x → (number x).length ≤ 24) :
    (write number (ControlResponse.tracking report).toJson).length ≤ 500 := by
  have hsynchronized := length_bool_le number report.synchronized
  have hoffset := length_f64_le (h report.offsetS (by simp))
  have hfreq := length_f64_le (h report.freqPpm (by simp))
  have hbound := length_f64_le (h report.errorBoundS (by simp))
  have hpoll := length_i8_le number report.pollLog2
  simp (disch := decide) [ControlResponse.toJson, toFields, write, writeFields, length_quote]
  omega

/-- A row is short, and 4096 of them are not too long for the client. -/
theorem ClientRow.length_le {row : ClientRow R} (hplain : plain row.address = true)
    (haddress : row.address.length ≤ 39)
    (h : ∀ x, row.lastSeenAgoS = .finite x → (number x).length ≤ 24) :
    (write number row.toJson).length ≤ 220 := by
  have hage := length_f64_le h
  have hrequests := length_u64_le number row.requests
  have hresponses := length_u64_le number row.responses
  have hdropped := length_u64_le number row.dropped
  have hinterleaved := length_bool_le number row.interleaved
  have hquote := length_quote hplain
  rw [String.length_toList] at hquote
  simp (disch := decide) [toJson, write, writeFields, length_quote, hquote]
  omega

theorem length_elems_le {k : Nat} {xs : List (Json R)}
    (h : ∀ x ∈ xs, (write number x).length ≤ k) :
    (write number (.array xs)).length ≤ (k + 1) * xs.length + 2 := by
  have htail : ∀ xs : List (Json R), (∀ x ∈ xs, (write number x).length ≤ k) →
      (writeElems number xs).length ≤ (k + 1) * xs.length + 1 := by
    intro xs h
    induction xs with
    | nil => simp [writeElems]
    | cons x xs ih =>
      obtain ⟨hx, hxs⟩ := List.forall_mem_cons.mp h
      have htail := ih hxs
      rw [writeElems, List.length_cons, List.length_append, List.length_cons, Nat.mul_succ]
      omega
  cases xs with
  | nil => simp [write]
  | cons x xs =>
    obtain ⟨hx, hxs⟩ := List.forall_mem_cons.mp h
    have hrest := htail xs hxs
    rw [write, List.length_cons, List.length_append, List.length_cons, Nat.mul_succ]
    omega

/-- The strings of an answer that the daemon gives. -/
structure ControlResponse.Short (response : ControlResponse R) : Prop where
  plain : ∀ s ∈ response.texts, plain s = true
  length : ∀ s ∈ response.texts, s.length ≤ 100
  rows : ∀ rows, response = .clients rows → rows.length ≤ 4096 ∧ ∀ r ∈ rows, r.address.length ≤ 39

theorem ControlResponse.Short.of_texts {response : ControlResponse R}
    (h : ∀ s ∈ response.texts, Json.plain s = true ∧ s.length ≤ 100)
    (hrows : ∀ rows, response ≠ .clients rows) : response.Short where
  plain s hs := (h s hs).1
  length s hs := (h s hs).2
  rows rows heq := absurd heq (hrows rows)

/-- **No answer but a list of key ids is too long for the client.** -/
theorem ControlResponse.length_le {response : ControlResponse R} (hshort : response.Short)
    (hnumbers : ∀ x, .finite x ∈ response.numbers → (number x).length ≤ 24)
    (hids : ∀ ids, response ≠ .ntsData ids) :
    (write number response.toJson).length ≤ Control.maxResponseBytes := by
  unfold Control.maxResponseBytes
  cases response with
  | serverStats report => exact (ServerStatsReport.length_le report).trans (by decide)
  | clients rows =>
    obtain ⟨hcount, haddress⟩ := hshort.rows rows rfl
    have hrow : ∀ j ∈ rows.map (·.toJson), (write number j).length ≤ 220 := by
      intro j hj
      obtain ⟨row, hrow, rfl⟩ := List.mem_map.mp hj
      refine ClientRow.length_le (hshort.plain _ (List.mem_map_of_mem hrow)) (haddress row hrow) ?_
      intro x hx
      exact hnumbers x (List.mem_map.mpr ⟨row, hrow, hx⟩)
    have hrows := length_elems_le hrow
    rw [List.length_map] at hrows
    simp (disch := decide) [toJson, write, writeFields, length_quote]
    omega
  | ntsData ids => exact absurd rfl (hids ids)
  | tracking report =>
    refine (TrackingReport.length_le fun a ha x hx => ?_).trans (by decide)
    exact hnumbers x (hx ▸ ha)
  | pong version =>
    have hlength := hshort.length version List.mem_cons_self
    have hquote := length_quote (hshort.plain version List.mem_cons_self)
    rw [String.length_toList] at hquote
    simp (disch := decide) [toJson, write, writeFields, length_quote, hquote]
    omega
  | error message =>
    have hlength := hshort.length message List.mem_cons_self
    have hquote := length_quote (hshort.plain message List.mem_cons_self)
    rw [String.length_toList] at hquote
    simp (disch := decide) [toJson, write, writeFields, length_quote, hquote]
    omega

/-- How long a list of key ids is. -/
theorem ControlResponse.length_ntsData (ids : List UInt32) :
    (write number (ControlResponse.ntsData ids : ControlResponse R).toJson).length =
      41 + Control.idsLength ids := by
  have htail : ∀ ids : List UInt32,
      (writeElems number (ids.map u32ToJson)).length =
        (ids.map fun id => (toString id.toNat).length).sum + ids.length + 1 := by
    intro ids
    induction ids with
    | nil => rfl
    | cons id ids ih =>
      rw [List.map_cons, writeElems, List.length_cons, List.length_append, ih, List.map_cons,
        List.sum_cons, List.length_cons]
      have hid : (write number (u32ToJson id)).length = (toString id.toNat).length :=
        String.length_toList
      omega
  have harray : (write number (.array (ids.map u32ToJson))).length = 2 + Control.idsLength ids := by
    cases ids with
    | nil => rfl
    | cons id ids =>
      have hid : (write number (u32ToJson id)).length = (toString id.toNat).length :=
        String.length_toList
      rw [List.map_cons, write, List.length_cons, List.length_append, htail, hid, Control.idsLength,
        List.map_cons, List.sum_cons, List.length_cons]
      omega
  simp (disch := decide) [toJson, write, writeFields, length_quote, harray]
  omega

end

end RustyTime
