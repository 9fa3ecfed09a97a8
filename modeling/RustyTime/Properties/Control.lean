import Mathlib.Data.List.DropRight
import Mathlib.Data.Rat.Floor
import RustyTime.Properties.ControlJson
import RustyTime.Properties.SyncViews
import RustyTime.Properties.Text

/-!
# Answers that cross the socket

An answer is one line of printable ASCII. The client reads it back unless it holds a number that
JSON lacks, or is longer than the client reads.

* `readLine_line` — what is read of a line
* `exchange_line_iff` — an answer is read back exactly if its numbers are finite and its line fits
* `run_shows` — the histories that are answered from are those of the sync loop's runs
* `request_survives_iff` — when the answer to a request survives
-/

namespace RustyTime

open Infra Infra.Ieee Json

namespace Control

/-! ## Lines -/

theorem printable_bounds {c : Char} (h : printable c = true) : 32 ≤ c.toNat ∧ c.toNat < 127 := by
  simpa [printable] using h

/-- The byte of an ASCII character. -/
def asciiByte (c : Char) : UInt8 := UInt8.ofNat c.toNat

theorem asciiByte_ne_lf {c : Char} (h : printable c = true) : (asciiByte c == 10) = false := by
  obtain ⟨hlow, hhigh⟩ := printable_bounds h
  rw [beq_eq_false_iff_ne]
  intro heq
  have hnat := congrArg UInt8.toNat heq
  rw [asciiByte, UInt8.toNat_ofNat', Nat.mod_eq_of_lt (by omega)] at hnat
  rw [hnat] at hlow
  exact absurd hlow (by decide)

/-- Up to its end a line has no line feed, so all of it is read. -/
theorem take_findIdx {α : Type} {p : α → Bool} {xs ys : List α} (hxs : ∀ x ∈ xs, p x = false)
    (hys : ys.length ≤ 1) : (xs ++ ys).take ((xs ++ ys).findIdx p + 1) = xs ++ ys := by
  refine List.take_of_length_le ?_
  have hnone : xs.findIdx p = xs.length := List.findIdx_eq_length_of_false hxs
  rw [List.findIdx_append, hnone, if_neg (Nat.lt_irrefl _), List.length_append]
  omega

/-- **What is read of a line**: it, or as much of it as the reader takes. -/
theorem readLine_line {cs : List Char} (h : ∀ c ∈ cs, printable c = true) (limit : Nat) :
    readLine limit (asBytes (String.ofList cs ++ "\n")) =
      some (String.ofList ((cs ++ ['\n']).take limit)) := by
  have hascii : ∀ c ∈ cs ++ ['\n'], c.toNat < 128 := by
    intro c hc
    rcases List.mem_append.mp hc with hc | hc
    · have hbounds := printable_bounds (h c hc)
      omega
    · rw [List.mem_singleton.mp hc]
      decide
  have hline : String.ofList cs ++ "\n" = String.ofList (cs ++ ['\n']) := by
    rw [String.ofList_append]
  have hbytes : (asBytes (String.ofList cs ++ "\n")).take limit =
      ((cs ++ ['\n']).take limit).map asciiByte := by
    rw [hline, asBytes_ofList hascii, List.map_take]
    rfl
  have htake : ∀ bytes, bytes = ((cs ++ ['\n']).take limit).map asciiByte →
      bytes.take (bytes.findIdx (· == 10) + 1) = bytes := by
    rintro bytes rfl
    rw [List.take_append, List.map_append]
    refine take_findIdx (fun b hb => ?_) ?_
    · obtain ⟨c, hc, rfl⟩ := List.mem_map.mp hb
      exact asciiByte_ne_lf (h c (List.mem_of_mem_take hc))
    · rw [List.length_map, List.length_take]
      exact Nat.min_le_right _ _
  unfold readLine
  dsimp only
  rw [hbytes, htake _ rfl]
  have hback := fromUtf8_asBytes (String.ofList ((cs ++ ['\n']).take limit))
  rwa [asBytes_ofList fun c hc => hascii c (List.mem_of_mem_take hc)] at hback

/-! ## Trimming -/

theorem toList_trim (s : String) :
    (trim s).toList = (s.toList.dropWhile isWhitespace).rdropWhile isWhitespace := by
  rw [trim, String.toList_ofList]
  rfl

/-- A text in braces is what trimming leaves of its line. -/
theorem trim_line {inner ws : List Char} (hws : ∀ c ∈ ws, isWhitespace c = true) :
    trim (String.ofList ('{' :: (inner ++ ['}']) ++ ws)) =
      String.ofList ('{' :: (inner ++ ['}'])) := by
  have hends : (('{' :: inner) ++ ['}']).rdropWhile isWhitespace = ('{' :: inner) ++ ['}'] :=
    List.rdropWhile_concat_neg _ _ _ (by decide)
  rw [List.rdropWhile] at hends
  rw [← String.toList_inj, toList_trim, String.toList_ofList, String.toList_ofList,
    List.cons_append, List.dropWhile_cons_of_neg (by decide), ← List.cons_append, List.rdropWhile,
    List.reverse_append, List.dropWhile_append_of_pos]
  · exact hends
  · intro c hc
    exact hws c (List.mem_reverse.mp hc)

/-- Trimming leaves a part of a text that begins with a brace. -/
theorem trim_prefix {cs : List Char} (h : cs.head? = some '{') :
    (trim (String.ofList cs)).toList <+: cs := by
  rw [toList_trim, String.toList_ofList]
  cases cs with
  | nil => cases h
  | cons c cs =>
    obtain rfl := Option.some.inj h
    rw [List.dropWhile_cons_of_neg (by decide)]
    exact List.rdropWhile_prefix _ _

/-- A line that the reader takes whole. -/
theorem readLine_whole {cs inner : List Char} (hcs : cs = '{' :: (inner ++ ['}']))
    (h : ∀ c ∈ cs, printable c = true) {limit : Nat} (hlimit : cs.length ≤ limit) :
    ∃ s, readLine limit (asBytes (String.ofList cs ++ "\n")) = some s ∧ s ≠ "" ∧
      trim s = String.ofList cs := by
  refine ⟨_, readLine_line h limit, ?_, ?_⟩
  · intro hempty
    have hlist := congrArg String.toList hempty
    rw [String.toList_ofList, List.take_append, List.take_of_length_le hlimit, hcs] at hlist
    cases hlist
  · rw [List.take_append, List.take_of_length_le hlimit, hcs]
    refine trim_line fun c hc => ?_
    rw [List.mem_singleton.mp (List.mem_of_mem_take hc)]
    decide

/-- Of a longer line a part is read. -/
theorem readLine_cut {cs inner : List Char} (hcs : cs = '{' :: (inner ++ ['}']))
    (h : ∀ c ∈ cs, printable c = true) {limit : Nat} (hpos : 0 < limit)
    (hlimit : limit < cs.length) :
    ∃ s, readLine limit (asBytes (String.ofList cs ++ "\n")) = some s ∧
      (trim s).toList <+: cs ∧ trim s ≠ String.ofList cs := by
  have hhead : (cs.take limit).head? = some '{' := by
    rw [List.head?_take, if_neg hpos.ne', hcs]
    rfl
  have hpart := trim_prefix hhead
  refine ⟨_, readLine_line h limit, ?_⟩
  rw [List.take_append_of_le_length hlimit.le]
  refine ⟨hpart.trans (List.take_prefix limit cs), fun heq => ?_⟩
  have hlength := hpart.length_le
  rw [heq, String.toList_ofList, List.length_take] at hlength
  omega

theorem ofList_ne_empty {cs inner : List Char} (hcs : cs = '{' :: (inner ++ ['}'])) :
    String.ofList cs ≠ "" := by
  intro hempty
  have hlist := congrArg String.toList hempty
  rw [String.toList_ofList, hcs] at hlist
  cases hlist

/-! ## The client's side -/

section

variable {R : Type} {json : SerdeJson R}

theorem response_object (response : ControlResponse R) :
    ∃ inner, response.toJson.write json.number = '{' :: (inner ++ ['}']) := by
  cases response <;> exact write_object _

theorem request_object (request : ControlRequest) :
    ∃ inner, (request.toJson : Json R).write json.number = '{' :: (inner ++ ['}']) := by
  cases request <;> exact write_object _

theorem fromStr_iff {α : Type} {ofJson : Json R → Option α} {s : String} {j : Json R} {a : α}
    (h : json.value s = .ok j) : json.fromStr ofJson s = .ok a ↔ ofJson j = some a := by
  rw [SerdeJson.fromStr, h]
  dsimp only
  cases ofJson j with
  | none => simp
  | some b => simp

theorem fromStr_error {α : Type} {ofJson : Json R → Option α} {s e : String}
    (h : json.value s = .error e) : json.fromStr ofJson s = .error e := by
  rw [SerdeJson.fromStr, h]

variable [Field R]

theorem exchange_iff {stream : List UInt8} {s : String} {response : ControlResponse R}
    (h : readLine maxResponseBytes stream = some s) :
    exchange json stream = .ok response ↔
      trim s ≠ "" ∧ json.fromStr ControlResponse.ofJson (trim s) = .ok response := by
  rw [exchange, h]
  dsimp only
  split
  · next hempty => simp [hempty]
  · next hempty =>
    cases json.fromStr ControlResponse.ofJson (trim s) with
    | error e => simp
    | ok read => simp [hempty]

/-- **An answer is read back exactly if its numbers are finite and its line fits.** -/
theorem exchange_line_iff (hjson : json.Lossless) {response : ControlResponse R}
    (hplain : ∀ s ∈ response.texts, plain s = true) :
    exchange json (line json response.toJson) = .ok response ↔
      (∀ x ∈ response.numbers, x.isFinite = true) ∧
        (response.toJson.write json.number).length ≤ maxResponseBytes := by
  obtain ⟨inner, hinner⟩ := @response_object R json response
  have hprintable := printable_of_mem_write hjson.numeral _ (ControlResponse.allPlain_toJson hplain)
  rcases Nat.lt_or_ge maxResponseBytes (response.toJson.write json.number).length with hlt | hle
  · obtain ⟨s, hread, hpart, hne⟩ := readLine_cut hinner hprintable (by decide) hlt
    obtain ⟨e, hcut⟩ := hjson.cut response (trim s)
      (by rwa [SerdeJson.toString, String.toList_ofList]) hne
    have hline : readLine maxResponseBytes (line json response.toJson) = some s := hread
    rw [exchange_iff hline, fromStr_error hcut]
    constructor
    · rintro ⟨-, h⟩
      cases h
    · rintro ⟨-, h⟩
      exact absurd hlt h.not_gt
  · obtain ⟨s, hread, -, htrim⟩ := readLine_whole hinner hprintable hle
    have hline : readLine maxResponseBytes (line json response.toJson) = some s := hread
    have hvalue : trim s = json.toString response.toJson := htrim
    rw [exchange_iff hline, hvalue, fromStr_iff (hjson.response response),
      ControlResponse.ofJson_toJson]
    exact ⟨fun h => ⟨h.2, hle⟩, fun h => ⟨ofList_ne_empty hinner, h.1⟩⟩

end

/-! ## The daemon's side -/

section

variable {K R : Type} [Field R] [LinearOrder R] {json : SerdeJson R} {address : K → String}
  {clock : Readings R} {state : ControlState K R}

/-- A request reaches the daemon, which answers it. -/
theorem serveConnection_line (hjson : json.Lossless) (req : ControlRequest) :
    serveConnection json address clock state (line json req.toJson) =
      .ok (line json (handle address clock req state).toJson) := by
  obtain ⟨inner, hinner⟩ := @request_object R json req
  have hprintable := printable_of_mem_write hjson.numeral _ (ControlRequest.allPlain_toJson req)
  have hlength : ((req.toJson : Json R).write json.number).length ≤ maxRequestBytes :=
    (ControlRequest.length_le req).trans (by decide)
  obtain ⟨s, hread, hne, htrim⟩ := readLine_whole hinner hprintable hlength
  have hparse : json.fromStr ControlRequest.ofJson (trim s) = .ok req := by
    rw [htrim]
    exact (fromStr_iff (hjson.request req)).mpr (ControlRequest.ofJson_toJson req)
  have hline : readLine maxRequestBytes (line json req.toJson) = some s := hread
  rw [serveConnection, hline]
  dsimp only
  rw [if_neg hne, hparse]

theorem request_eq (hjson : json.Lossless) (req : ControlRequest) :
    request json address clock state req =
      exchange json (line json (handle address clock req state).toJson) := by
  rw [request, serveConnection_line hjson]

end

/-! ## The answers of the daemon -/

section

variable {K R : Type} [Field R] [LinearOrder R] [FloorSemiring R] {address : K → String}
  {clock : Readings R}

/-- Only the last publication counts. -/
theorem History.state_eq (h : History R) :
    h.state = match h.publications.getLast? with
      | none => .unsynchronized h.start
      | some p => p.apply (.unsynchronized h.start) := by
  unfold History.state
  rcases List.eq_nil_or_concat h.publications with hnil | ⟨ps, p, hconcat⟩
  · rw [hnil]
    rfl
  · rw [hconcat, List.concat_eq_append, List.foldl_append, List.getLast?_append]
    rfl

/-- **A snapshot has finite numbers exactly if the last ones published are finite.** -/
theorem History.finite_iff (h : History R) (now : R) :
    (∀ x ∈ (ControlResponse.tracking (h.state.snapshot now)).numbers, x.isFinite = true) ↔
      h.Finite := by
  rw [History.state_eq, History.Finite]
  cases h.publications.getLast? with
  | none => simp [ControlResponse.numbers, TrackingState.snapshot, TrackingState.unsynchronized,
      TrackingState.staleDriftPpm]
  | some p => simp [ControlResponse.numbers, TrackingState.snapshot, Publication.apply,
      TrackingState.publish, TrackingState.staleDriftPpm, Publication.Finite]

omit [FloorSemiring R] in
theorem plain_of_isAddressText (haddress : IsAddressText address) (a : K) :
    plain (address a) = true := by
  have hall : ("0123456789abcdef.:".toList.all fun c => printable c && escape c == [c]) = true := by
    decide
  exact List.all_eq_true.mpr fun c hc => List.all_eq_true.mp hall c ((haddress a).2 c hc)

theorem mostRecentFrom_length_le {K R : Type} (t : ClientTable K R) (limit i : Nat) :
    (t.mostRecentFrom limit i).length ≤ limit := by
  induction limit generalizing i with
  | zero => exact Nat.le_refl 0
  | succ limit ih =>
    rw [ClientTable.mostRecentFrom]
    split
    · exact Nat.zero_le _
    · split
      · exact Nat.zero_le _
      · exact Nat.succ_le_succ (ih _)

omit [FloorSemiring R] in
/-- The strings of a listing are short. -/
theorem short_clients (haddress : IsAddressText address) (guard : Server K R) (limit : UInt64) :
    (ControlResponse.clients ((listed guard limit).map (clientRow address clock))).Short where
  plain s hs := by
    obtain ⟨row, hrow, rfl⟩ := List.mem_map.mp hs
    obtain ⟨client, -, rfl⟩ := List.mem_map.mp hrow
    exact plain_of_isAddressText haddress client.1
  length s hs := by
    obtain ⟨row, hrow, rfl⟩ := List.mem_map.mp hs
    obtain ⟨client, -, rfl⟩ := List.mem_map.mp hrow
    exact (haddress client.1).1.trans (by decide)
  rows rows hrows := by
    cases hrows
    refine ⟨?_, fun row hrow => ?_⟩
    · rw [List.length_map]
      exact (mostRecentFrom_length_le guard.clients _ _).trans (Nat.min_le_right _ _)
    · obtain ⟨client, -, rfl⟩ := List.mem_map.mp hrow
      exact (haddress client.1).1

end

/-! ## The histories of the sync loop -/

section

variable {R : Type} [Field R] [LinearOrder R] [FloorRing R] {h : History R} {t : SyncTrace R}
  {opts : SyncOptions R}

omit [FloorRing R] in
/-- A loop starts with the view that the control plane has of it. -/
theorem shows_unsynchronized [IsStrictOrderedRing R] (now : R) :
    Shows (.unsynchronized now) (.unsynchronized now) where
  synchronized := rfl
  offsetS := rfl
  freqPpm := rfl
  errorBoundS := rfl
  updated := rfl
  pollIntervalS := congrArg F64.finite (by norm_num [RustyTime.TrackingState.unsynchronized])

/-- What the loop publishes reaches the control plane. -/
theorem shows_publish (synchronized : Bool) (offsetS freqPpm errorBoundS pollIntervalS now : R) :
    Shows
      (.publish synchronized (.finite offsetS) (.finite freqPpm) (.finite errorBoundS)
        (.finite pollIntervalS) now)
      (.publish synchronized offsetS freqPpm errorBoundS pollIntervalS now) where
  synchronized := rfl
  offsetS := rfl
  freqPpm := rfl
  errorBoundS := rfl
  updated := rfl
  pollIntervalS := F64.finite_max pollIntervalS 1

/-- A history that shows what the loop does: a publication, of finite numbers, for each plan on
record. -/
structure Records (h : History R) (t : SyncTrace R) : Prop where
  length : h.publications.length = t.published.length
  finite : ∀ p ∈ h.publications, p.Finite
  view : Shows h.state t.loop.tracking

theorem Records.finite_iff (hrecords : Records h t) : h.Finite ↔ t.published ≠ [] := by
  have hsame : h.publications = [] ↔ t.published = [] := by
    rw [← List.length_eq_zero_iff, hrecords.length, List.length_eq_zero_iff]
  rw [Ne, ← hsame, History.Finite]
  constructor
  · rintro ⟨p, hp, -⟩ hnil
    rw [hnil] at hp
    exact nomatch hp
  · intro hne
    exact ⟨_, List.getLast?_eq_getLast_of_ne_nil hne,
      hrecords.finite _ (List.getLast_mem hne)⟩

/-- One more plan is one more publication. -/
theorem Records.publish {loop : SyncLoop R} {d : Decision R} {doneS : R} {checkedS : Option R}
    (hrecords : Records h t) (hpublishes : SyncLoop.Publishes opts t.loop loop d doneS) :
    ∃ p, Records { h with publications := h.publications ++ [p] }
      { loop := loop, published := d :: t.published, checkedS := checkedS } := by
  obtain ⟨synchronized, offsetS, freqPpm, errorBoundS, pollIntervalS, htracking⟩ :=
    hpublishes.report
  refine ⟨⟨synchronized, .finite offsetS, .finite freqPpm, .finite errorBoundS,
    .finite pollIntervalS, d.doneS⟩, ?_, ?_, ?_⟩
  · rw [List.length_append, hrecords.length]
    rfl
  · intro q hq
    rcases List.mem_append.mp hq with hbefore | hlast
    · exact hrecords.finite q hbefore
    · obtain rfl := List.mem_singleton.mp hlast
      exact ⟨rfl, rfl, rfl⟩
  · rw [History.state, List.foldl_append, htracking]
    exact shows_publish synchronized offsetS freqPpm errorBoundS pollIntervalS d.doneS

/-- **One event of the loop adds one publication to the history, or none.** -/
theorem step_records (hrecords : Records h t) (std : StdFloat R) (nominalTickUs : Int)
    (ev : SyncEvent R) :
    ∃ h', h'.start = h.start ∧ Records h' (t.step opts std nominalTickUs ev) := by
  unfold SyncTrace.step
  split
  · exact ⟨h, rfl, hrecords⟩
  · next hexited =>
    dsimp only
    unfold SyncLoop.step
    rw [if_neg hexited]
    cases ev with
    | head checkedS monoS ok =>
      obtain ⟨hsame, hnone⟩ : SyncLoop.SameViews (t.loop.expire opts checkedS)
          ((t.loop.expire opts checkedS).retire opts nominalTickUs monoS ok).1 ∧ _ :=
        SyncLoop.retire_views _ monoS ok
      obtain ⟨served, servedSyncedAt, hexpire⟩ := SyncLoop.expire_eq opts t.loop checkedS
      have hkept : (t.loop.expire opts checkedS).tracking = t.loop.tracking := by rw [hexpire]
      dsimp only
      rw [hnone]
      refine ⟨h, rfl, hrecords.length, hrecords.finite, ?_⟩
      rw [hsame.tracking, hkept]
      exact hrecords.view
    | poll index p =>
      dsimp only
      have hreports : SyncLoop.Reports opts p.doneS t.loop
          (t.loop.poll opts std nominalTickUs index p) := SyncLoop.poll_reports t.loop index p
      rcases hreports with ⟨hsame, hnone⟩ | ⟨d, hd, hpublishes⟩
      · rw [hnone]
        refine ⟨h, rfl, hrecords.length, hrecords.finite, ?_⟩
        rw [hsame.tracking]
        exact hrecords.view
      · rw [hd]
        obtain ⟨p, hmore⟩ := hrecords.publish hpublishes
        exact ⟨{ h with publications := h.publications ++ [p] }, rfl, hmore⟩

/-- So the history of a record goes on as the record does. -/
theorem run_records (hrecords : Records h t) (std : StdFloat R) (nominalTickUs : Int)
    (evs : List (SyncEvent R)) :
    ∃ h', h'.start = h.start ∧ Records h' (t.run opts std nominalTickUs evs) := by
  induction evs generalizing h t with
  | nil => exact ⟨h, rfl, hrecords⟩
  | cons ev evs ih =>
    obtain ⟨h₁, hstart₁, hrecords₁⟩ := step_records hrecords std nominalTickUs ev
    obtain ⟨h₂, hstart₂, hrecords₂⟩ := ih hrecords₁
    exact ⟨h₂, hstart₂.trans hstart₁, hrecords₂⟩

/-- **The control plane answers from the histories of the loop's runs.** Every run has a history
that shows what the loop shows, and its last numbers are finite as soon as one plan was
published. -/
theorem run_shows [IsStrictOrderedRing R] (opts : SyncOptions R) (std : StdFloat R)
    (nominalTickUs : Int) (sources : List (Source R)) (now : R) (evs : List (SyncEvent R)) :
    ∃ h : History R, h.start = now ∧
      Shows h.state ((SyncTrace.start opts sources nominalTickUs now).run opts std nominalTickUs
        evs).loop.tracking ∧
      (h.Finite ↔ ((SyncTrace.start opts sources nominalTickUs now).run opts std nominalTickUs
        evs).published ≠ []) := by
  have hnew : Records ⟨now, []⟩ (SyncTrace.start opts sources nominalTickUs now) :=
    ⟨rfl, fun p hp => absurd hp List.not_mem_nil, shows_unsynchronized now⟩
  obtain ⟨h, hstart, hrecords⟩ := run_records hnew std nominalTickUs evs
  exact ⟨h, hstart, hrecords.view, hrecords.finite_iff⟩

end

/-! ## What survives -/

section

variable {R : Type} [Field R] {json : SerdeJson R} {response : ControlResponse R}

/-- Of an answer that is no list of key ids only the numbers matter. -/
theorem exchange_short_iff (hjson : json.Lossless) (hshort : response.Short)
    (hnumbers : response.ShortNumbers json) (hids : ∀ ids, response ≠ .ntsData ids) :
    exchange json (line json response.toJson) = .ok response ↔
      ∀ x ∈ response.numbers, x.isFinite = true := by
  rw [exchange_line_iff hjson hshort.plain]
  exact and_iff_left (ControlResponse.length_le hshort hnumbers hids)

/-- An answer without such numbers survives. -/
theorem exchange_plain (hjson : json.Lossless) (hshort : response.Short)
    (hnone : response.numbers = []) (hids : ∀ ids, response ≠ .ntsData ids) :
    exchange json (line json response.toJson) = .ok response := by
  refine (exchange_short_iff hjson hshort (fun x hx => ?_) hids).mpr fun x hx => ?_
  · rw [hnone] at hx
    cases hx
  · rw [hnone] at hx
    cases hx

theorem exchange_error (hjson : json.Lossless) {message : String} (hplain : plain message = true)
    (hlength : message.length ≤ 100) :
    exchange json (line json (ControlResponse.error message : ControlResponse R).toJson) =
      .ok (.error message) := by
  refine exchange_plain hjson (.of_texts (fun s hs => ?_) (by simp)) rfl (by simp)
  rw [List.mem_singleton.mp hs]
  exact ⟨hplain, hlength⟩

/-- A list of key ids survives if it fits. -/
theorem exchange_ntsData_iff (hjson : json.Lossless) (ids : List UInt32) :
    exchange json (line json (ControlResponse.ntsData ids : ControlResponse R).toJson) =
      .ok (.ntsData ids) ↔ idsLength ids ≤ 1048535 := by
  rw [exchange_line_iff hjson (by simp [ControlResponse.texts]), ControlResponse.length_ntsData,
    maxResponseBytes]
  have hnone : ∀ x ∈ (ControlResponse.ntsData ids : ControlResponse R).numbers,
      x.isFinite = true := by
    simp [ControlResponse.numbers]
  constructor
  · rintro ⟨-, h⟩
    omega
  · intro h
    exact ⟨hnone, by omega⟩

end

section

variable {K R : Type} [Field R] [LinearOrder R] [FloorSemiring R] {json : SerdeJson R}
  {address : K → String} {clock : Readings R}

theorem survives_tracking_iff (hjson : json.Lossless) (history : History R)
    (hnumbers : (ControlResponse.tracking (history.state.snapshot clock.instant)).ShortNumbers
      json) :
    exchange json
        (line json (ControlResponse.tracking (history.state.snapshot clock.instant)).toJson) =
      .ok (.tracking (history.state.snapshot clock.instant)) ↔ history.Finite := by
  rw [exchange_short_iff hjson (.of_texts (by simp [ControlResponse.texts]) (by simp)) hnumbers
    (by simp), History.finite_iff]

omit [FloorSemiring R] in
theorem survives_clients_iff (hjson : json.Lossless) (haddress : IsAddressText address)
    (guard : Server K R) (limit : UInt64)
    (hnumbers : (ControlResponse.clients
      ((listed guard limit).map (clientRow address clock))).ShortNumbers json) :
    exchange json (line json (ControlResponse.clients
        ((listed guard limit).map (clientRow address clock))).toJson) =
      .ok (.clients ((listed guard limit).map (clientRow address clock))) ↔
    ∀ client ∈ listed guard limit, clock.monoS.getD 0 - client.2.lastSeen ≠ .infinite false := by
  rw [exchange_short_iff hjson (short_clients haddress guard limit) hnumbers (by simp),
    ControlResponse.numbers, List.map_map, List.forall_mem_map]
  exact forall₂_congr fun client _ => F64.isFinite_max_zero

omit [FloorSemiring R] in
/-- A daemon without a server at hand says so. -/
theorem exchange_noServer (hjson : json.Lossless) {server : Option (Mutex (Server K R))}
    (h : ∀ guard, server ≠ some (.healthy guard)) (req : ControlRequest)
    (tracking : Option (Mutex (TrackingState R))) :
    exchange json (line json (handleServer address clock req ⟨server, tracking⟩).toJson) =
      .ok (handleServer address clock req ⟨server, tracking⟩) := by
  match server with
  | none => exact exchange_error hjson (by decide) (by decide)
  | some .poisoned => exact exchange_error hjson (by decide) (by decide)
  | some (.healthy guard) => exact absurd rfl (h guard)

omit [FloorSemiring R] in
theorem handle_eq_handleServer {req : ControlRequest} {state : ControlState K R}
    (hping : req ≠ .ping) (htracking : req ≠ .tracking) :
    handle address clock req state = handleServer address clock req state := by
  rw [handle, if_neg hping, if_neg htracking]

/-- **When the answer to a request survives.** A discipline loop that has not published, or has
published numbers that JSON lacks, is not heard; nor is a server whose clients were last seen
an infinite time ago, or with more key ids than the client reads. All else is. -/
theorem request_survives_iff (hjson : json.Lossless) (haddress : IsAddressText address)
    (server : Option (Mutex (Server K R))) (tracking : Option (Mutex (History R)))
    (req : ControlRequest)
    (hnumbers : (handle address clock req (.after server tracking)).ShortNumbers json) :
    request json address clock (.after server tracking) req =
        .ok (handle address clock req (.after server tracking)) ↔
      Survives clock server tracking req := by
  rw [request_eq hjson]
  cases req with
  | ping =>
    have hshort : (ControlResponse.pong "0.3.2" : ControlResponse R).Short :=
      .of_texts (List.forall_mem_singleton.mpr (by decide)) (by simp)
    have hpong := exchange_plain hjson hshort rfl (by simp)
    exact iff_of_true hpong trivial
  | tracking =>
    match tracking with
    | none =>
      exact iff_of_true (exchange_error hjson (by decide) (by decide)) fun _ h => nomatch h
    | some .poisoned =>
      exact iff_of_true (exchange_error hjson (by decide) (by decide)) fun _ h => nomatch h
    | some (.healthy history) =>
      have hstate := survives_tracking_iff hjson history hnumbers
      refine hstate.trans ⟨fun h _ heq => ?_, fun h => h history rfl⟩
      cases heq
      exact h
  | serverStats =>
    rw [handle_eq_handleServer (by decide) (by decide)]
    rcases em (∃ guard, server = some (.healthy guard)) with ⟨guard, rfl⟩ | hnone
    · have hshort : (ControlResponse.serverStats (serverStats clock guard) :
          ControlResponse R).Short := .of_texts (by simp [ControlResponse.texts]) (by simp)
      have hstats := exchange_plain hjson hshort rfl (by simp)
      exact iff_of_true hstats trivial
    · exact iff_of_true (exchange_noServer hjson (not_exists.mp hnone) _ _) trivial
  | clients limit =>
    rw [handle_eq_handleServer (by simp) (by simp)] at hnumbers ⊢
    rcases em (∃ guard, server = some (.healthy guard)) with ⟨guard, rfl⟩ | hnone
    · have hstate := survives_clients_iff hjson haddress guard limit hnumbers
      refine hstate.trans ⟨fun h _ heq => ?_, fun h => h guard rfl⟩
      cases heq
      exact h
    · refine iff_of_true (exchange_noServer hjson (not_exists.mp hnone) _ _) fun guard h => ?_
      exact absurd ⟨guard, h⟩ hnone
  | ntsData =>
    rw [handle_eq_handleServer (by decide) (by decide)]
    rcases em (∃ guard, server = some (.healthy guard)) with ⟨guard, rfl⟩ | hnone
    · have hstate := exchange_ntsData_iff hjson guard.ring.keyIds
      refine hstate.trans ⟨fun h _ heq => ?_, fun h => h guard rfl⟩
      cases heq
      exact h
    · refine iff_of_true (exchange_noServer hjson (not_exists.mp hnone) _ _) fun guard h => ?_
      exact absurd ⟨guard, h⟩ hnone

end

/-! ## A lossless encoding -/

/-- An integer with a point, and another number as its two parts. -/
def compactNumber (q : ℚ) : List Char :=
  (toString q.num).toList ++
    if q.den = 1 then ['.', '0'] else 'e' :: (toString (q.den : Int)).toList

def compactFloat (cs : List Char) : Option ℚ :=
  match readInt (cs.takeWhile integral), cs.dropWhile integral with
  | some n, ['.', '0'] => some n
  | some n, 'e' :: den => (readInt den).map fun d : Int => (n : ℚ) / d
  | _, _ => none

theorem compactFloat_compactNumber (q : ℚ) : compactFloat (compactNumber q) = some q := by
  have hnum : ∀ c ∈ (toString q.num).toList, integral c = true := fun c hc =>
    integral_of_mem_toString hc
  unfold compactNumber
  split
  · next hden =>
    have hstops : ∀ c ∈ ['.', '0'].head?, integral c = false := by
      rintro c ⟨⟩
      rfl
    obtain ⟨htake, hdrop⟩ := takeWhile_append_of_stops hnum hstops
    rw [compactFloat, htake, hdrop, readInt_toString]
    exact congrArg some ((Rat.den_eq_one_iff q).mp hden)
  · next hden =>
    have hstops : ∀ c ∈ ('e' :: (toString (q.den : Int)).toList).head?, integral c = false := by
      rintro c ⟨⟩
      rfl
    obtain ⟨htake, hdrop⟩ := takeWhile_append_of_stops hnum hstops
    rw [compactFloat, htake, hdrop, readInt_toString]
    show (readInt (toString (q.den : Int)).toList).map (fun d : Int => (q.num : ℚ) / d) = some q
    rw [readInt_toString]
    exact congrArg some (Rat.num_div_den q)

theorem compactNumber_isNumberText : IsNumberText compactNumber compactFloat where
  read := compactFloat_compactNumber
  numeral q c hc := by
    rcases List.mem_append.mp hc with hc | hc
    · exact numeral_of_integral (integral_of_mem_toString hc)
    · split at hc
      · exact List.all_eq_true.mp (by decide : ['.', '0'].all numeral = true) c hc
      · rcases List.mem_cons.mp hc with rfl | hc
        · rfl
        · exact numeral_of_integral (integral_of_mem_toString hc)
  marked q h := by
    unfold compactNumber at h
    split at h
    · exact absurd (h '.' (by simp)) (by decide)
    · exact absurd (h 'e' (by simp)) (by decide)

/-- `serde_json`, as far as compact texts go. -/
def compactJson : SerdeJson ℚ where
  number := compactNumber
  value s :=
    match Json.read compactFloat compactNumber s.toList with
    | some j => .ok j
    | none => .error "expected value"
  mismatch _ := "invalid type"

theorem compactJson_value (j : Json ℚ) : compactJson.value (compactJson.toString j) = .ok j := by
  show (match Json.read compactFloat compactNumber
    (String.ofList (j.write compactNumber)).toList with
    | some j => Except.ok j
    | none => .error "expected value") = _
  rw [String.toList_ofList, read_write compactNumber_isNumberText]

theorem compactJson_lossless : compactJson.Lossless where
  numeral := compactNumber_isNumberText.numeral
  request request := compactJson_value request.toJson
  response response := compactJson_value response.toJson
  cut response s hpart hne := by
    obtain ⟨inner, hinner⟩ := @response_object ℚ compactJson response
    obtain ⟨rest, hrest⟩ := hpart
    rw [SerdeJson.toString, String.toList_ofList] at hrest
    cases hread : Json.read compactFloat compactNumber s.toList with
    | none => exact ⟨"expected value", by rw [compactJson]; dsimp only; rw [hread]⟩
    | some x =>
      have hwrite := read_eq_some hread
      obtain ⟨c, cs, hcs⟩ := List.exists_cons_of_ne_nil
        (write_ne_nil compactNumber_isNumberText x)
      have hnumber : x.isNumber = false := by
        have hopen : c = '{' := by
          rw [← hwrite, hcs, hinner] at hrest
          exact (List.cons.inj hrest).1
        refine isNumber_eq_false compactNumber_isNumberText (by decide : numeral '{' = false) ?_
        rw [hcs, hopen]
        exact List.mem_cons_self
      rw [← hwrite] at hrest
      have hnil := write_append_eq compactNumber_isNumberText hnumber hrest
      rw [hnil, List.append_nil, hwrite] at hrest
      refine absurd ?_ hne
      rw [SerdeJson.toString, ← hrest, String.ofList_toList]

/-- The hosts of 192.0.2.0/24. -/
def testNet (host : UInt8) : String := "192.0.2." ++ toString host.toNat

theorem isDigit_mem {c : Char} (h : c.isDigit = true) : c ∈ "0123456789abcdef.:".toList := by
  unfold Char.isDigit at h
  rw [Bool.and_eq_true, decide_eq_true_eq, decide_eq_true_eq] at h
  have hall : ∀ n < 58, 48 ≤ n → Char.ofNat n ∈ "0123456789abcdef.:".toList := by decide
  rw [← Char.ofNat_toNat c]
  exact hall c.toNat (Nat.lt_succ_of_le h.2) h.1

theorem testNet_isAddressText : IsAddressText testNet := by
  intro host
  constructor
  · have hlt := host.toNat_lt
    have hdigits := length_toString_le (show 0 < 3 by decide) (show host.toNat < 10 ^ 3 by omega)
    rw [String.length_toList] at hdigits
    rw [testNet, String.length_append]
    exact (Nat.add_le_add_left hdigits _).trans (by decide)
  · intro c hc
    rw [testNet, String.toList_append, List.mem_append] at hc
    rcases hc with hc | hc
    · have hall : "192.0.2.".toList.all ("0123456789abcdef.:".toList.contains ·) = true := by decide
      exact List.contains_iff_mem.mp (List.all_eq_true.mp hall c hc)
    · rw [show (toString host.toNat).toList = Nat.toDigits 10 host.toNat from Nat.toList_repr] at hc
      have hdigit := Nat.isDigit_of_mem_toDigits (by decide) (by decide) hc
      exact isDigit_mem hdigit

/-- An instant at which the other clocks read nothing. -/
def atStart : Readings ℚ := ⟨0, none, none⟩

/-- A loop that published once. -/
def publishedOnce : History ℚ := ⟨0, [⟨true, .finite 2, .finite 1, .finite 3, .finite 64, 0⟩]⟩

/-- The report of a loop that published once survives. -/
theorem request_survives_iff_published :
    request compactJson testNet atStart (.after none (some (.healthy publishedOnce))) .tracking =
      .ok (.tracking ⟨true, .finite 2, .finite 1, .finite 3, 6⟩) := by
  have hanswer : handle testNet atStart .tracking
      (.after none (some (.healthy publishedOnce))) =
      .tracking ⟨true, .finite 2, .finite 1, .finite 3, 6⟩ := by
    decide +kernel
  have hshort : (handle testNet atStart .tracking
      (.after none (some (.healthy publishedOnce)))).ShortNumbers compactJson := by
    rw [hanswer]
    intro x hx
    simp only [ControlResponse.numbers, List.mem_cons, F64.finite.injEq, List.not_mem_nil] at hx
    rcases hx with rfl | rfl | rfl | hx
    · decide
    · decide
    · decide
    · exact hx.elim
  have hfinite : publishedOnce.Finite := ⟨_, rfl, rfl, rfl, rfl⟩
  have hsurvives := (request_survives_iff compactJson_lossless testNet_isAddressText none
    (some (.healthy publishedOnce)) .tracking hshort).mpr fun history h => by
      cases h
      exact hfinite
  rwa [hanswer] at hsurvives

/-- The answer of a loop that has published nothing does not reach the client. -/
theorem unsynchronized_lost : compactJson.Lossless ∧
    request compactJson testNet atStart (.after none (some (.healthy ⟨0, []⟩))) .tracking ≠
      .ok (handle testNet atStart .tracking (.after none (some (.healthy ⟨0, []⟩)))) := by
  refine ⟨compactJson_lossless, fun h => ?_⟩
  rw [request_eq compactJson_lossless] at h
  have hanswer : ControlResponse.tracking ((⟨0, []⟩ : History ℚ).state.snapshot atStart.instant) =
      .tracking ⟨false, .finite 0, .finite 0, .infinite false, 0⟩ := by
    decide +kernel
  have hshort : (ControlResponse.tracking ((⟨0, []⟩ : History ℚ).state.snapshot
      atStart.instant)).ShortNumbers compactJson := by
    rw [hanswer]
    intro x hx
    simp [ControlResponse.numbers] at hx
    rw [hx]
    decide
  obtain ⟨p, hp, -⟩ := (survives_tracking_iff compactJson_lossless ⟨0, []⟩ hshort).mp h
  cases hp

end Control

end RustyTime
