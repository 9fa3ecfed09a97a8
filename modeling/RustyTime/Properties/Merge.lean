import RustyTime.Infra.Run
import RustyTime.Properties.SealedStore
import RustyTime.Spec.Merge

/-!
# Merged entries and the flush

A flush writes the fields that are declared. Writes and reads declare theirs, a merge declares
none, so an entry that came by a merge is written once something else has named it.

* `mergeEach_took` — what a merge does
* `step_fields`, `step_holds` — what one call declares, and what it fills
* `merged_kept_iff` — when a flush writes all that was merged
-/

namespace RustyTime.Store

open Infra.Program Infra.Run
open Infra.Cursor (bind_eq_ok)

variable (aead : Aes256Gcm) {s s' : Store}

/-! ## Merging -/

/-- A store after it took in some collections of another. -/
structure Took (other : Replica) (cs : List Collection) (s s' : Store) : Prop where
  schema : s'.db.schema = s.db.schema
  fields : s'.fields = s.fields
  registers : ∀ c k, s'.db.registers c k ≠ none ↔
    s.db.registers c k ≠ none ∨ c ∈ cs ∧ other.store.db.registers c k ≠ none

theorem Took.nil (other : Replica) (s : Store) : Took other [] s s where
  schema := rfl
  fields := rfl
  registers _ _ := (or_iff_left fun h => List.not_mem_nil h.1).symm

/-- One collection and then others. -/
theorem Took.cons {other : Replica} {collection : Collection} {cs : List Collection} {s₁ : Store}
    (h₁ : Took other [collection] s s₁) (h : Took other cs s₁ s') :
    Took other (collection :: cs) s s' where
  schema := h.schema.trans h₁.schema
  fields := h.fields.trans h₁.fields
  registers c k := by
    rw [h.registers, h₁.registers, or_assoc, ← or_and_right, List.mem_singleton, List.mem_cons]

/-- An update without entries is taken in by doing nothing. -/
theorem took_empty {other : Replica} {collection : Collection}
    (h : (other.exported collection).isEmpty = true) (s : Store) :
    Took other [collection] s s where
  schema := rfl
  fields := rfl
  registers c k := by
    refine (or_iff_left ?_).symm
    rintro ⟨hc, hk⟩
    obtain rfl := List.mem_singleton.mp hc
    refine hk ?_
    rw [← other.entries]
    exact (other.exported c).none_of_isEmpty h k

/-- An import that ends well. -/
theorem took_importUpdate (other : Replica) (collection : Collection) (theirs : String → Bool)
    (s : Store) : Took other [collection] s { s with
      db := s.db.importUpdate collection (other.exported collection) theirs } where
  schema := rfl
  fields := rfl
  registers c k := by
    unfold Database.importUpdate
    dsimp only
    rw [List.mem_singleton]
    by_cases hc : c = collection
    · subst hc
      rw [Function.update_self, ← other.entries]
      cases s.db.registers c k <;> cases (other.exported c).entries k <;> simp
    · rw [Function.update_of_ne hc]
      exact (or_iff_left fun h => hc h.1).symm

/-- **What a merge does**: it fills entries, and declares nothing. -/
theorem mergeEach_took (system : MergeSystem) (other : Replica) (cs : List Collection)
    (s : Store) :
    Took other (taken system other cs) s (stateOf ((mergeEach system other cs).run s)) := by
  induction cs generalizing s with
  | nil => exact Took.nil other s
  | cons collection cs ih =>
    unfold mergeEach taken
    split
    · next hempty =>
      dsimp only
      rw [if_pos hempty]
      unfold importGuarded
      cases system.ends collection with
      | done => exact .cons (took_importUpdate other collection _ s) (ih _)
      | refused => exact Took.nil other s
      | panicked => exact ih s
    · next hempty =>
      dsimp only
      rw [if_neg hempty]
      exact .cons (took_empty (Bool.not_eq_false _ ▸ hempty) s) (ih s)

/-! ## One call -/

/-- The call writes an entry, or takes one in. -/
def Call.Fills (call : Call) (c : Collection) (k : String) : Prop :=
  match call with
  | .put system collection key _ =>
    system.takes collection key = true ∧ c = collection ∧ k = key
  | .merge system other =>
    c ∈ taken system other collections ∧ other.store.db.registers c k ≠ none
  | _ => False

theorem Call.fills_of_brings {call : Call} {c : Collection} {k : String} (h : call.Brings c k) :
    call.Fills c k := by
  cases call with
  | merge => exact h
  | put | get | flush => cases h

theorem Call.of_fills {call : Call} {c : Collection} {k : String} (h : call.Fills c k) :
    call.Touches c k ∨ call.Brings c k := by
  cases call with
  | put => exact .inl h.2
  | merge => exact .inr h
  | get | flush => cases h

theorem flush_step (h : s.Defined) : Call.step aead s .flush = s := by
  unfold Call.step
  rw [flush_eq h]

/-- The schema stays what was declared. -/
theorem step_defined (h : s.Defined) (call : Call) : (call.step aead s).Defined := by
  cases call with
  | put system collection key value =>
    show (stateOf ((writeRaw system collection key value).run s)).Defined
    rw [writeRaw_run ⟨h, rfl⟩]
    split <;> exact ensureField_schema h
  | get collection key =>
    show (stateOf ((getSealed aead collection key).run s)).Defined
    rw [getSealed_run ⟨h, rfl⟩, stateOf_answer]
    exact ensureField_schema h
  | merge system other =>
    have htook := mergeEach_took system other collections s
    exact htook.schema.trans (h.trans htook.fields.symm)
  | flush =>
    rw [flush_step aead h]
    exact h

/-- **What is declared after a call**: what the call writes or reads, and no entry that it took in
from a peer. -/
theorem step_fields (h : s.Defined) (call : Call) (c : Collection) (k : String) :
    k ∈ (call.step aead s).fields c ↔ k ∈ s.fields c ∨ call.Touches c k := by
  cases call with
  | put system collection key value =>
    show k ∈ (stateOf ((writeRaw system collection key value).run s)).fields c ↔ _
    rw [writeRaw_run ⟨h, rfl⟩]
    split <;> exact mem_ensureField_iff
  | get collection key =>
    show k ∈ (stateOf ((getSealed aead collection key).run s)).fields c ↔ _
    rw [getSealed_run ⟨h, rfl⟩, stateOf_answer]
    exact mem_ensureField_iff
  | merge system other =>
    show k ∈ (stateOf ((mergeEach system other collections).run s)).fields c ↔ _
    rw [(mergeEach_took system other collections s).fields]
    exact (or_iff_left id).symm
  | flush =>
    rw [flush_step aead h]
    exact (or_iff_left id).symm

/-- What holds a value after a call. -/
theorem step_holds (h : s.Defined) (call : Call) (c : Collection) (k : String) :
    (call.step aead s).db.registers c k ≠ none ↔
      s.db.registers c k ≠ none ∨ call.Fills c k := by
  cases call with
  | put system collection key value =>
    show (stateOf ((writeRaw system collection key value).run s)).db.registers c k ≠ none ↔
      _ ∨ system.takes collection key = true ∧ c = collection ∧ k = key
    rw [writeRaw_run ⟨h, rfl⟩]
    split
    · next htakes =>
      show Contents.put s.db.registers collection key value c k ≠ none ↔ _
      by_cases hkey : c = collection ∧ k = key
      · obtain ⟨rfl, rfl⟩ := hkey
        rw [put_self]
        simp [htakes]
      · rw [put_other _ value hkey]
        exact (or_iff_left fun h => hkey h.2).symm
    · next htakes =>
      show (s.ensureField collection key).db.registers c k ≠ none ↔ _
      rw [ensureField_registers]
      exact (or_iff_left fun h => htakes h.1).symm
  | get collection key =>
    show (stateOf ((getSealed aead collection key).run s)).db.registers c k ≠ none ↔ _
    rw [getSealed_run ⟨h, rfl⟩, stateOf_answer, ensureField_registers]
    exact (or_iff_left id).symm
  | merge system other => exact (mergeEach_took system other collections s).registers c k
  | flush =>
    rw [flush_step aead h]
    exact (or_iff_left id).symm

/-! ## A run -/

theorem calls_defined (h : s.Defined) (calls : List Call) :
    (calls.foldl (Call.step aead) s).Defined := by
  induction calls generalizing s with
  | nil => exact h
  | cons call calls ih => exact ih (step_defined aead h call)

/-- **After a run every value stands in a declared field exactly if every entry merged was
declared before the run, or written or read in it.** -/
theorem covered_calls (h : s.Defined) (hs : Covered s) (calls : List Call) :
    Covered (calls.foldl (Call.step aead) s) ↔ ∀ call ∈ calls, ∀ c k, call.Brings c k →
      k ∈ s.fields c ∨ ∃ call ∈ calls, call.Touches c k := by
  have hfields (c : Collection) (k : String) :
      k ∈ (calls.foldl (Call.step aead) s).fields c ↔
        k ∈ s.fields c ∨ ∃ call ∈ calls, call.Touches c k :=
    foldl_iff_exists (P := fun s => k ∈ s.fields c) Defined
      (fun _ call h => step_defined aead h call) (fun _ call h => step_fields aead h call c k) h
  have hholds (c : Collection) (k : String) :
      (calls.foldl (Call.step aead) s).db.registers c k ≠ none ↔
        s.db.registers c k ≠ none ∨ ∃ call ∈ calls, call.Fills c k :=
    foldl_iff_exists (P := fun s => s.db.registers c k ≠ none) Defined
      (fun _ call h => step_defined aead h call) (fun _ call h => step_holds aead h call c k) h
  constructor
  · intro hcovered call hmem c k hbrings
    refine (hfields c k).mp (hcovered c k ((hholds c k).mpr (.inr ⟨call, hmem, ?_⟩)))
    exact Call.fills_of_brings hbrings
  · intro hall c k hvalue
    refine (hfields c k).mpr ?_
    rcases (hholds c k).mp hvalue with hold | ⟨call, hmem, hfills⟩
    · exact .inl (hs c k hold)
    · rcases Call.of_fills hfills with htouches | hbrings
      · exact .inr ⟨call, hmem, htouches⟩
      · exact hall call hmem c k hbrings

/-! ## The disk and back -/

theorem putRaw_covered {collection : Collection} {key value : String} (h : s.Defined)
    (hs : Covered s) (hput : s.putRaw collection key value = .ok s') : s'.Defined ∧ Covered s' := by
  rw [putRaw_eq h] at hput
  cases hput
  refine ⟨ensureField_schema h, fun c k hvalue => ?_⟩
  obtain ⟨v, hv⟩ := Option.ne_none_iff_exists'.mp hvalue
  rcases of_update_registers hv with ⟨rfl, rfl, -⟩ | hold
  · exact mem_ensureField
  · exact mem_ensureField_of_mem (hs c k (by rw [hold]; exact Option.some_ne_none v))

theorem loadFrom_covered {rest : List UInt8} (h : s.Defined) (hs : Covered s)
    (hload : loadFrom s rest = .ok s') : s'.Defined ∧ Covered s' := by
  induction s, rest using loadFrom.induct with
  | case1 s =>
    rw [loadFrom_nil] at hload
    cases hload
    exact ⟨h, hs⟩
  | case2 s rest hne e herr =>
    rw [loadFrom, if_neg hne] at hload
    split at hload
    · cases hload
    · next hread =>
      rw [herr] at hread
      cases hread
  | case3 s rest hne collection key value rest' hread e hput =>
    rw [loadFrom, if_neg hne] at hload
    split at hload
    · cases hload
    · next hread' =>
      rw [hread] at hread'
      cases hread'
      rw [hput] at hload
      cases hload
  | case4 s rest hne collection key value rest' hread s₁ hput ih =>
    rw [loadFrom_record hne hread hput] at hload
    obtain ⟨h₁, hs₁⟩ := putRaw_covered h hs hput
    exact ih h₁ hs₁ hload

/-- A store that was opened writes every value it holds. -/
theorem openFile_covered {file : Option (List UInt8)} (hopen : openFile file = .ok s) :
    s.Defined ∧ Covered s := by
  have hempty : Covered empty := fun c k h => absurd rfl h
  cases file with
  | none =>
    cases hopen
    exact ⟨empty_declared.schema, hempty⟩
  | some blob => exact loadFrom_covered empty_declared.schema hempty hopen

/-- A store whose values all stand in declared fields comes back from the disk. -/
theorem restored_of_covered (h : s.Defined) (hs : Covered s) (hfits : Fits s) : Restored s := by
  have hdeclared : Declared s :=
    ⟨h, fun c k v hv => hs c k (by rw [hv]; exact Option.some_ne_none v), hfits⟩
  obtain ⟨blob, s', hflush, hopen, hdeclared', hregs⟩ := flush_restores hdeclared
  refine ⟨blob, s', hflush, hopen, fun c k => ?_⟩
  rw [value_eq hdeclared'.schema, value_eq h, hregs]

/-- **A flush writes all that was merged exactly if all of it was declared by then**: at every flush
of a run every value stands in a declared field, and comes back from the disk, exactly if each entry
merged before it was declared when the store was opened, or has been written or read since. -/
theorem merged_kept_iff {file : Option (List UInt8)} (hopen : openFile file = .ok s)
    (calls : List Call) :
    (∀ past, past ++ [.flush] <+: calls → Covered (past.foldl (Call.step aead) s) ∧
      (Fits (past.foldl (Call.step aead) s) → Restored (past.foldl (Call.step aead) s))) ↔
      ∀ past, past ++ [.flush] <+: calls → ∀ call ∈ past, ∀ c k, call.Brings c k →
        k ∈ s.fields c ∨ ∃ call ∈ past, call.Touches c k := by
  obtain ⟨hdefined, hcovered⟩ := openFile_covered hopen
  refine forall₂_congr fun past _ => ?_
  rw [← covered_calls aead hdefined hcovered past]
  refine and_iff_left_of_imp fun h => ?_
  exact restored_of_covered (calls_defined aead hdefined past) h

/-- A store as a peer, each of its updates with bytes. -/
def replicaOf (s : Store) : Replica where
  store := s
  exported collection := ⟨s.db.registers collection, false, fun h => Bool.noConfusion h⟩
  entries _ := rfl

/-- A peer with the drift of one server. -/
def driftPeer : Store :=
  (empty.ensureField .drift "drift/a/0").damage .drift "drift/a/0" "00ff"

/-- A merge of all the peer has. -/
def mergeDrift : Call := .merge ⟨fun _ => .done, fun _ _ => true⟩ (replicaOf driftPeer)

/-- What the peer has. -/
theorem driftPeer_registers {c : Collection} {k : String}
    (h : driftPeer.db.registers c k ≠ none) : c = .drift ∧ k = "drift/a/0" := by
  refine Classical.byContradiction fun hkey => h ?_
  show Contents.put (empty.ensureField .drift "drift/a/0").db.registers .drift "drift/a/0" "00ff"
    c k = none
  rw [put_other _ _ hkey, ensureField_registers]
  rfl

/-- An entry that was read between the merge and the flush is kept. -/
theorem merged_kept_iff_read :
    Covered ([mergeDrift, .get .drift "drift/a/0"].foldl (Call.step .checksum) empty) ∧
      Restored ([mergeDrift, .get .drift "drift/a/0"].foldl (Call.step .checksum) empty) := by
  have hread : ∀ past, past ++ [.flush] <+: [mergeDrift, .get .drift "drift/a/0", .flush] →
      ∀ call ∈ past, ∀ c k, call.Brings c k → k ∈ empty.fields c ∨
        ∃ call ∈ past, call.Touches c k := by
    intro past hpast call hmem c k hbrings
    obtain rfl : past = [mergeDrift, .get .drift "drift/a/0"] := by
      rcases past with _ | ⟨a, _ | ⟨b, _ | ⟨c, past⟩⟩⟩
      all_goals simp_all [mergeDrift]
    refine .inr ⟨.get .drift "drift/a/0", List.mem_cons_of_mem _ (List.mem_singleton_self _), ?_⟩
    rcases List.mem_pair.mp hmem with rfl | rfl
    · exact driftPeer_registers hbrings.2
    · cases hbrings
  have hopen : openFile none = .ok empty := rfl
  obtain ⟨hcovered, hrestored⟩ := (merged_kept_iff .checksum hopen _).mpr hread
    [mergeDrift, .get .drift "drift/a/0"] (List.prefix_refl _)
  refine ⟨hcovered, hrestored fun c k v hv => ?_⟩
  cases c with
  | drift =>
    have hpeer : driftPeer.db.registers .drift k = some v := hv
    obtain ⟨-, rfl⟩ := driftPeer_registers (by rw [hpeer]; exact Option.some_ne_none v)
    obtain rfl := Option.some.inj hpeer
    decide
  | cookies | keys => cases hv

/-- An entry that was not is lost: the store reads it, and the file it writes is empty. -/
theorem not_merged_kept :
    ¬Covered ([mergeDrift].foldl (Call.step .checksum) empty) ∧
      ([mergeDrift].foldl (Call.step .checksum) empty).value .drift "drift/a/0" =
        .ok (some "00ff") ∧
      ([mergeDrift].foldl (Call.step .checksum) empty).flush =
        .ok ([mergeDrift].foldl (Call.step .checksum) empty, []) ∧
      openFile (some []) = .ok empty ∧ empty.value .drift "drift/a/0" = .ok none := by
  refine ⟨fun h => ?_, rfl, rfl, loadFrom_nil, rfl⟩
  have hmem := h .drift "drift/a/0" (by decide)
  exact absurd hmem List.not_mem_nil

end RustyTime.Store
