import RustyTime.Infra.Run
import RustyTime.Spec.Refclock

/-!
# When a shared-memory sample is whole

While COUNT stands at an even number of steps the words stand still, and they are those of the
last publication. So what the reader has copied stays the words of that publication for as long as
COUNT has not moved since it first read it.

* `Settled` — what the producer keeps
* `Reading` — what the reader knows of what it has copied
* `sample_untorn` — a sample is whole where the second look at COUNT is not fooled
-/

namespace RustyTime.Refclock

open Infra.Run State

/-! ## Words -/

/-- Two records have one word in common. -/
def Fields.Agree (a b : Fields) : Word → Prop
  | .clockSec => a.clockSec = b.clockSec
  | .clockUsec => a.clockUsec = b.clockUsec
  | .clockNsec => a.clockNsec = b.clockNsec
  | .receiveSec => a.receiveSec = b.receiveSec
  | .receiveUsec => a.receiveUsec = b.receiveUsec
  | .receiveNsec => a.receiveNsec = b.receiveNsec
  | .leap => a.leap = b.leap
  | .precision => a.precision = b.precision

theorem Fields.ext_agree {a b : Fields} (h : ∀ word, a.Agree b word) : a = b := by
  obtain ⟨_, _, _, _, _, _, _, _⟩ := a
  obtain ⟨_, _, _, _, _, _, _, _⟩ := b
  obtain rfl := h .clockSec
  obtain rfl := h .clockUsec
  obtain rfl := h .clockNsec
  obtain rfl := h .receiveSec
  obtain rfl := h .receiveUsec
  obtain rfl := h .receiveNsec
  obtain rfl := h .leap
  obtain rfl := h .precision
  rfl

theorem Fields.copy_agree (source target : Fields) (word : Word) :
    (source.copy target word).Agree source word := by cases word <;> rfl

theorem Fields.copy_agree_of_ne {source target other : Fields} {word w : Word} (h : w ≠ word)
    (hw : target.Agree other w) : (source.copy target word).Agree other w := by
  cases word <;> cases w <;> first | exact hw | exact absurd rfl h

/-! ## The producer -/

/-- The producer is between its two increments. -/
def Producer.Inside : Producer → Prop
  | .writing _ _ _ => True
  | _ => False

/-- What it will publish, and is publishing. -/
def Producer.ahead : Producer → List Publication
  | .idle later => later
  | .cleared p later => p :: later
  | .writing p _ later => p :: later
  | .counted p later => p :: later

/-- What every step of either party keeps of the segment. -/
structure Settled (first : Int32) (publications : List Publication) (s : State) : Prop where
  mode : s.shm.mode = 1
  count : s.shm.count = first + Int32.ofNat s.ups
  ahead : s.producer.ahead ⊆ publications
  parity : Even s.ups ↔ ¬s.producer.Inside
  valid : s.shm.valid ≠ 0 → 2 ≤ s.ups
  counted : ∀ p later, s.producer = .counted p later → 2 ≤ s.ups
  /-- What is written of the publication under way. -/
  inside : ∀ p left later, s.producer = .writing p left later →
    ∀ word, word ∉ left → s.shm.fields.Agree p.fields word
  /-- Outside an update the words are those of a publication. -/
  outside : ¬s.producer.Inside → 2 ≤ s.ups → ∃ p ∈ publications, s.shm.fields = p.fields

theorem add_ofNat_succ (first : Int32) (n : Nat) :
    first + Int32.ofNat (n + 1) = first + Int32.ofNat n + 1 := by
  rw [Int32.ofNat_add, Int32.add_assoc]
  rfl

/-- COUNT is the same only after the same number of steps, or a whole round of them. -/
theorem mod_eq_of_add_ofNat {first : Int32} {m n : Nat}
    (h : first + Int32.ofNat m = first + Int32.ofNat n) : m % 4294967296 = n % 4294967296 := by
  have hbits : BitVec.ofNat 32 m = BitVec.ofNat 32 n :=
    congrArg Int32.toBitVec ((Int32.add_right_inj first).1 h)
  have hnat := congrArg BitVec.toNat hbits
  rwa [BitVec.toNat_ofNat, BitVec.toNat_ofNat] at hnat

variable {first : Int32} {publications : List Publication} {s : State}

/-- Outside an update the producer writes no word of a sample. -/
theorem produce_fields (h : ¬s.producer.Inside) : s.produce.shm.fields = s.shm.fields := by
  unfold State.produce
  cases hp : s.producer with
  | idle later => cases later <;> rfl
  | cleared p later => rfl
  | writing p left later => exact absurd (by rw [hp]; trivial) h
  | counted p later => rfl

theorem le_produce_ups (s : State) : s.ups ≤ s.produce.ups := by
  unfold State.produce
  split <;> first | exact Nat.le_refl _ | exact Nat.le_succ _

/-- **The producer keeps the segment settled.** -/
theorem Settled.produce (h : Settled first publications s) :
    Settled first publications s.produce := by
  obtain ⟨hmode, hcount, hahead, hparity, hvalid, hcounted, hinside, houtside⟩ := h
  unfold State.produce
  cases hp : s.producer with
  | idle later =>
    rw [hp] at hahead hparity houtside
    cases later with
    | nil =>
      exact ⟨hmode, hcount, by rw [hp]; exact hahead, by rw [hp]; exact hparity, hvalid, hcounted,
        hinside, by rw [hp]; exact houtside⟩
    | cons p later =>
      exact ⟨hmode, hcount, hahead, hparity, fun hne => absurd rfl hne, nofun, nofun, houtside⟩
  | cleared p later =>
    rw [hp] at hahead hparity houtside
    have hodd : ¬Even (s.ups + 1) := by
      rw [Nat.even_add_one, not_not]
      exact hparity.2 id
    refine ⟨hmode, ?_, hahead, iff_of_false hodd fun hout => hout trivial, fun hne => ?_, nofun,
      ?_, fun hout => absurd trivial hout⟩
    · show s.shm.count + 1 = first + Int32.ofNat (s.ups + 1)
      rw [add_ofNat_succ, hcount]
    · exact (hvalid hne).trans (Nat.le_succ _)
    · rintro p' left later' heq word hword
      cases heq
      exact absurd (p.complete word) hword
  | writing p left later =>
    rw [hp] at hahead hparity houtside
    have hodd : ¬Even s.ups := fun heven => hparity.1 heven trivial
    cases left with
    | nil =>
      have heven : Even (s.ups + 1) := Nat.even_add_one.2 hodd
      have hpos : 2 ≤ s.ups + 1 := by
        rcases Nat.eq_zero_or_pos s.ups with hzero | hpos
        · exact absurd (by rw [hzero]; exact Nat.even_iff.2 rfl) hodd
        · exact Nat.succ_le_succ hpos
      refine ⟨hmode, ?_, hahead, iff_of_true heven id, fun _ => hpos, fun _ _ _ => hpos, nofun,
        fun _ _ => ⟨p, hahead List.mem_cons_self, ?_⟩⟩
      · show s.shm.count + 1 = first + Int32.ofNat (s.ups + 1)
        rw [add_ofNat_succ, hcount]
      · exact Fields.ext_agree fun word => hinside p [] later hp word List.not_mem_nil
    | cons next left =>
      refine ⟨hmode, hcount, hahead, hparity, hvalid, nofun, ?_, fun hout => absurd trivial hout⟩
      rintro p' left' later' heq word hword
      cases heq
      by_cases hhere : word = next
      · rw [hhere]
        exact Fields.copy_agree p.fields s.shm.fields next
      · refine Fields.copy_agree_of_ne hhere (hinside p (next :: left) later hp word ?_)
        rw [List.mem_cons, not_or]
        exact ⟨hhere, hword⟩
  | counted p later =>
    rw [hp] at hahead hparity houtside
    exact ⟨hmode, hcount, fun q hq => hahead (List.mem_cons_of_mem p hq),
      hparity, fun _ => hcounted p later hp, nofun, nofun, houtside⟩

/-- The reader leaves the segment alone. -/
theorem Settled.read (h : Settled first publications s) : Settled first publications s.read :=
  ⟨h.mode, h.count, h.ahead, h.parity, h.valid, h.counted, h.inside, h.outside⟩

/-! ## The reader -/

/-- What an attempt knows: COUNT was read after a publication, and as long as it has not moved
since and was even then, the words copied are those of the segment. -/
structure Copied (first : Int32) (s : State) (before : Int32) (got : Fields)
    (words : Word → Prop) : Prop where
  published : 2 ≤ s.mark
  le : s.mark ≤ s.ups
  before_eq : before = first + Int32.ofNat s.mark
  agree : s.ups = s.mark → Even s.mark → ∀ word, words word → got.Agree s.shm.fields word

/-- The reader, wherever it is. -/
def Reading (first : Int32) (publications : List Publication) (s : State) : Prop :=
  match s.reader with
  | .valid _ => True
  | .mode _ => 2 ≤ s.ups
  | .countBefore _ kind => kind = 1 ∧ 2 ≤ s.ups
  | .copying _ kind before next later got =>
    kind = 1 ∧ Copied first s before got fun word => word ∉ next :: later
  | .countAfter _ before got => Copied first s before got fun _ => True
  | .returned got => ∀ words, got = some words → ∃ p ∈ publications, words = p.fields

/-- What was copied of an even COUNT, the producer leaves as it is until COUNT moves. -/
theorem Copied.produce (h : Settled first publications s) {before : Int32} {got : Fields}
    {words : Word → Prop} (hcopied : Copied first s before got words) :
    Copied first s.produce before got words := by
  have hmark : s.produce.mark = s.mark := by
    unfold State.produce
    split <;> rfl
  have hups := le_produce_ups s
  obtain ⟨hpublished, hle, hbefore, hagree⟩ := hcopied
  refine ⟨by rw [hmark]; exact hpublished, by rw [hmark]; omega, by rw [hmark]; exact hbefore, ?_⟩
  rw [hmark]
  intro hsame heven
  have hstill : s.ups = s.mark := by omega
  rw [produce_fields (h.parity.1 (by rw [hstill]; exact heven))]
  exact hagree hstill heven

theorem Reading.produce (h : Settled first publications s)
    (hreading : Reading first publications s) : Reading first publications s.produce := by
  have hreader : s.produce.reader = s.reader := by
    unfold State.produce
    split <;> rfl
  have hups := le_produce_ups s
  unfold Reading at hreading ⊢
  rw [hreader]
  split
  · trivial
  · next hr =>
    rw [hr] at hreading
    exact hreading.trans hups
  · next hr =>
    rw [hr] at hreading
    exact ⟨hreading.1, hreading.2.trans hups⟩
  · next hr =>
    rw [hr] at hreading
    exact ⟨hreading.1, hreading.2.produce h⟩
  · next hr =>
    rw [hr] at hreading
    exact hreading.produce h
  · next hr =>
    rw [hr] at hreading
    exact hreading

theorem mem_laterWords (word : Word) : word ∈ Word.clockSec :: Reader.laterWords := by
  cases word <;> decide

/-- **The reader goes on knowing**, and a second look at COUNT that is not fooled tells it that
what it has is whole. -/
theorem Reading.read (h : Settled first publications s)
    (hreading : Reading first publications s) (hturn : s.NotFooled .reader) :
    Reading first publications s.read := by
  unfold Reading at hreading ⊢
  unfold State.read
  cases hr : s.reader with
  | valid retries =>
    dsimp only [Reader.step]
    by_cases hv : s.shm.valid = 0
    · rw [if_pos hv]
      exact nofun
    · rw [if_neg hv]
      exact h.valid hv
  | mode retries =>
    rw [hr] at hreading
    exact ⟨h.mode, hreading⟩
  | countBefore retries kind =>
    rw [hr] at hreading
    exact ⟨hreading.1, hreading.2, Nat.le_refl _, h.count,
      fun _ _ word hword => absurd (mem_laterWords word) hword⟩
  | copying retries kind before next later got =>
    rw [hr] at hreading
    obtain ⟨hkind, hpublished, hle, hbefore, hagree⟩ := hreading
    have hnext : s.ups = s.mark → Even s.mark → ∀ word, word ∉ later →
        (s.shm.fields.copy got next).Agree s.shm.fields word := by
      intro hsame heven word hword
      by_cases hhere : word = next
      · rw [hhere]
        exact Fields.copy_agree s.shm.fields got next
      · refine Fields.copy_agree_of_ne hhere (hagree hsame heven word ?_)
        rw [List.mem_cons, not_or]
        exact ⟨hhere, hword⟩
    cases later with
    | cons next later => exact ⟨hkind, hpublished, hle, hbefore, hnext⟩
    | nil =>
      dsimp only [Reader.step]
      rw [if_pos hkind]
      exact ⟨hpublished, hle, hbefore,
        fun hsame heven word _ => hnext hsame heven word List.not_mem_nil⟩
  | countAfter retries before got =>
    rw [hr] at hreading
    obtain ⟨hpublished, hle, hbefore, hagree⟩ := hreading
    dsimp only [Reader.step]
    by_cases hcount : before = s.shm.count
    · rw [if_neg (not_not.2 hcount)]
      rintro words ⟨⟩
      -- COUNT is the same, so it has not moved
      have hmod := mod_eq_of_add_ofNat (hbefore.symm.trans (hcount.trans h.count))
      obtain ⟨hsame, heven⟩ := hturn rfl (by rw [hr]; trivial) hmod.symm
      have hwhole : got = s.shm.fields :=
        Fields.ext_agree fun word => hagree hsame heven word trivial
      rw [hwhole]
      exact h.outside (h.parity.1 (by rw [hsame]; exact heven)) (hpublished.trans hle)
    · rw [if_pos hcount]
      cases retries with
      | zero => exact nofun
      | succ retries => trivial
  | returned got =>
    rw [hr] at hreading
    exact hreading

/-! ## Every schedule -/

theorem settled_start (shm : ShmTime) (hmode : shm.mode = 1) (hvalid : shm.valid = 0)
    (publications : List Publication) :
    Settled shm.count publications (start shm publications) where
  mode := hmode
  count := (Int32.add_zero shm.count).symm
  ahead := fun _ h => h
  parity := iff_of_true (Nat.even_iff.2 rfl) id
  valid hne := absurd hvalid hne
  counted := nofun
  inside := nofun
  outside _ htwo := absurd (show 2 ≤ 0 from htwo) (by decide)

/--
**A shared-memory sample is whole where the second look at COUNT is not fooled.** Whatever the
producer publishes in mode 1 and whatever the order of the steps: in a run in which no attempt
reads COUNT both times inside one update, nor a whole round of COUNT later, the words that `sample`
returns are those of one publication.
-/
theorem sample_untorn {shm : ShmTime} (hmode : shm.mode = 1) (hvalid : shm.valid = 0)
    (publications : List Publication) (turns : List State.Turn)
    (hturns : Along State.step NotFooled (start shm publications) turns) {words : Fields}
    (hreturned : (turns.foldl State.step (start shm publications)).reader =
      .returned (some words)) :
    ∃ p ∈ publications, words = p.fields := by
  have hinv : Settled shm.count publications (turns.foldl State.step (start shm publications)) ∧
      Reading shm.count publications (turns.foldl State.step (start shm publications)) := by
    refine @Along.invariant _ _ _ _ (fun s => Settled shm.count publications s ∧
      Reading shm.count publications s) (fun s turn hs hturn => ?_) _ _
      ⟨settled_start shm hmode hvalid publications, trivial⟩ hturns
    cases turn with
    | producer => exact ⟨hs.1.produce, hs.2.produce hs.1⟩
    | reader => exact ⟨hs.1.read, hs.2.read hs.1 hturn⟩
  have hreading := hinv.2
  unfold Reading at hreading
  rw [hreturned] at hreading
  exact hreading words rfl

/-- The reference and the receiver agree on the second `sec`. -/
def atSecond (sec : Int64) : Publication where
  fields := { (default : Fields) with clockSec := sec, receiveSec := sec }
  order := .clockSec :: Reader.laterWords
  complete := mem_laterWords

/-- A segment nothing was published in, of a producer in mode 1. -/
def blankSegment : ShmTime := ⟨1, 0, 0, default⟩

/-- The second publication comes while the first is being copied, and the reader tries again. -/
def retriedTurns : List State.Turn :=
  List.replicate 12 .producer ++ List.replicate 5 .reader ++ List.replicate 12 .producer
    ++ List.replicate 19 .reader

theorem sample_untorn_retried :
    (retriedTurns.foldl State.step (start blankSegment [atSecond 1, atSecond 2])).reader =
        .returned (some (atSecond 2).fields) ∧
      ∃ p ∈ [atSecond 1, atSecond 2], (atSecond 2).fields = p.fields := by
  have hreturned :
      (retriedTurns.foldl State.step (start blankSegment [atSecond 1, atSecond 2])).reader =
        .returned (some (atSecond 2).fields) := by decide +kernel
  exact ⟨hreturned, sample_untorn rfl rfl [atSecond 1, atSecond 2] retriedTurns
    (by decide +kernel) hreturned⟩

/-- The reader finds the first sample valid; the producer begins to write the second, and stops
after a word; the reader reads on, and COUNT is what it was. -/
def tornTurns : List State.Turn :=
  List.replicate 12 .producer ++ List.replicate 2 .reader ++ List.replicate 3 .producer
    ++ List.replicate 10 .reader

/-- One word of the second publication with the words of the first, as if it were a sample. -/
def tornWords : Fields := { (default : Fields) with clockSec := 2, receiveSec := 1 }

/-- The words returned are those of neither publication: the reference is a second off, where both
publications have it agree. -/
theorem torn_inside_an_update :
    (tornTurns.foldl State.step (start blankSegment [atSecond 1, atSecond 2])).reader =
      .returned (some tornWords) ∧
    (∀ p ∈ [atSecond 1, atSecond 2], tornWords ≠ p.fields) ∧
    (sampleOf tornWords : RefclockSample ℚ).offsetS = 1 ∧
    ∀ p ∈ [atSecond 1, atSecond 2], (sampleOf p.fields : RefclockSample ℚ).offsetS = 0 := by
  decide +kernel

end RustyTime.Refclock
