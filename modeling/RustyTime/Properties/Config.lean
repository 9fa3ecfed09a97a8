import RustyTime.Infra.Cursor
import RustyTime.Spec.Config

/-!
# What the configuration parser drops

What one line does to the configuration is a function of its words and their roles: values are
appended or take the place of earlier ones, and reports are appended.

* `serverOptions_did` — the options of a server
* `parseLine_did`, `parseLines_did` — one line, and all of them
* `nothing_dropped_iff` — nothing is dropped of a text exactly when it is tidy
-/

namespace RustyTime.ConfigFile

open Infra.Cursor (ok_bind bind_eq_ok)

variable {F α : Type} {parseF64 : String → Option F}

/-! ## Values of a role -/

/-- The values of the words of a role. -/
def values (f : String → Option α) (role : Role) (words : List (String × Role)) : List α :=
  words.filterMap fun p => if p.2 = role then f p.1 else none

/-- What is reported of the words. -/
def reports (no : Nat) (words : List (String × Role)) : List (Nat × String) :=
  words.filterMap fun p =>
    match p.2 with
    | .foreign report => some (no, report)
    | _ => none

@[simp] theorem values_nil (f : String → Option α) (role : Role) : values f role [] = [] := rfl

theorem values_append (f : String → Option α) (role : Role) (xs ys : List (String × Role)) :
    values f role (xs ++ ys) = values f role xs ++ values f role ys :=
  List.filterMap_append

theorem values_cons_of_ne (f : String → Option α) {role r : Role} (h : r ≠ role) (word : String)
    (words : List (String × Role)) : values f role ((word, r) :: words) = values f role words :=
  List.filterMap_cons_none (if_neg h)

/-- Where the words of a role all say the same, each says what the last one does. -/
theorem Same.eq_getLast? {f : String → Option α} {role : Role} {words : List (String × Role)}
    (h : Same f role words) {p : String × Role} (hp : p ∈ words) (hrole : p.2 = role) {v : α}
    (hv : f p.1 = some v) : (values f role words).getLast? = some v := by
  have hmem : v ∈ values f role words :=
    List.mem_filterMap.2 ⟨p, hp, by rw [if_pos hrole, hv]⟩
  obtain ⟨last, hlast⟩ : ∃ last, (values f role words).getLast? = some last :=
    Option.isSome_iff_exists.1 (List.getLast?_isSome.2 (List.ne_nil_of_mem hmem))
  obtain ⟨q, hq, hqlast⟩ := List.mem_filterMap.1 (List.mem_of_getLast? hlast)
  split at hqlast
  · next hqrole => rw [hlast, ← hqlast, ← h p hp q hq hrole hqrole, hv]
  · cases hqlast

/-! ## The options of a server -/

/-- What the options do to a server. -/
structure OptionsDid (no : Nat) (words : List (String × Role)) (s s' : ServerDirective)
    (ignored ignored' : List (Nat × String)) : Prop where
  host : s'.host = s.host
  isPool : s'.isPool = s.isPool
  iburst : s.iburst = true ∨ (∃ p ∈ words, p.2 = .iburst) → s'.iburst = true
  minPoll : s'.minPoll = (values parseI8 .minPoll words).getLast?.or s.minPoll
  maxPoll : s'.maxPoll = (values parseI8 .maxPoll words).getLast?.or s.maxPoll
  minParses : ∀ p ∈ words, p.2 = .minPoll → (parseI8 p.1).isSome = true
  maxParses : ∀ p ∈ words, p.2 = .maxPoll → (parseI8 p.1).isSome = true
  ignored : ignored' = ignored ++ reports no words

/-- The options one after another. -/
theorem OptionsDid.trans {no : Nat} {xs ys : List (String × Role)} {s s₁ s' : ServerDirective}
    {ignored ignored₁ ignored' : List (Nat × String)} (hx : OptionsDid no xs s s₁ ignored ignored₁)
    (hy : OptionsDid no ys s₁ s' ignored₁ ignored') :
    OptionsDid no (xs ++ ys) s s' ignored ignored' where
  host := hy.host.trans hx.host
  isPool := hy.isPool.trans hx.isPool
  iburst := by
    rintro (hs | ⟨p, hp, hrole⟩)
    · exact hy.iburst (.inl (hx.iburst (.inl hs)))
    · rcases List.mem_append.1 hp with hp | hp
      · exact hy.iburst (.inl (hx.iburst (.inr ⟨p, hp, hrole⟩)))
      · exact hy.iburst (.inr ⟨p, hp, hrole⟩)
  minPoll := by rw [hy.minPoll, hx.minPoll, values_append, List.getLast?_append, Option.or_assoc]
  maxPoll := by rw [hy.maxPoll, hx.maxPoll, values_append, List.getLast?_append, Option.or_assoc]
  minParses p hp := (List.mem_append.1 hp).elim (hx.minParses p) (hy.minParses p)
  maxParses p hp := (List.mem_append.1 hp).elim (hx.maxParses p) (hy.maxParses p)
  ignored := by
    rw [hy.ignored, hx.ignored, List.append_assoc]
    exact congrArg (ignored ++ ·) List.filterMap_append.symm

section

variable {no : Nat} {s : ServerDirective} {ignored : List (Nat × String)} {word value : String}

theorem optionsDid_nil : OptionsDid no [] s s ignored ignored := by
  constructor <;> simp [reports]

theorem optionsDid_iburst :
    OptionsDid no [(word, .iburst)] s { s with iburst := true } ignored ignored := by
  constructor <;> simp [values, reports]

theorem optionsDid_minPoll {poll : Int8} (h : parseI8 value = some poll) :
    OptionsDid no [(word, .poll), (value, .minPoll)] s { s with minPoll := some poll } ignored
      ignored := by
  constructor <;> simp [values, reports, h]

theorem optionsDid_maxPoll {poll : Int8} (h : parseI8 value = some poll) :
    OptionsDid no [(word, .poll), (value, .maxPoll)] s { s with maxPoll := some poll } ignored
      ignored := by
  constructor <;> simp [values, reports, h]

theorem optionsDid_foreign (report : String) :
    OptionsDid no [(word, .foreign report)] s s ignored (ignored ++ [(no, report)]) := by
  constructor <;> simp [values, reports]

theorem optionsDid_argument (report : String) :
    OptionsDid no [(value, .argument report)] s s ignored ignored := by
  constructor <;> simp [values, reports]

end

theorem parseNum_eq_ok {fromStr : String → Option α} {no : Nat} {what word : String} {v : α} :
    parseNum fromStr no what (some word) = .ok v ↔ fromStr word = some v := by
  unfold parseNum
  dsimp only
  split
  · next hnone => simp [hnone]
  · next v' hv => simp [hv]

theorem serverOptions_did {no : Nat} {isPool : Bool} : ∀ {options : List String}
    {s s' : ServerDirective} {ignored ignored' : List (Nat × String)},
    serverOptions no isPool options s ignored = .ok (s', ignored') →
    OptionsDid no (optionRoles isPool options) s s' ignored ignored'
  | [], _, _, _, _, h => by
    cases h
    exact optionsDid_nil
  | word :: rest, s, s', ignored, ignored', h => by
    unfold serverOptions at h
    unfold optionRoles
    cases hopt : ServerOption.of word with
    | iburst =>
      rw [hopt] at h
      exact optionsDid_iburst.trans (serverOptions_did h)
    | minPoll =>
      rw [hopt] at h
      cases rest with
      | nil => cases h
      | cons value rest =>
        obtain ⟨poll, hpoll, h⟩ := bind_eq_ok.1 h
        exact (optionsDid_minPoll (parseNum_eq_ok.1 hpoll)).trans (serverOptions_did h)
    | maxPoll =>
      rw [hopt] at h
      cases rest with
      | nil => cases h
      | cons value rest =>
        obtain ⟨poll, hpoll, h⟩ := bind_eq_ok.1 h
        exact (optionsDid_maxPoll (parseNum_eq_ok.1 hpoll)).trans (serverOptions_did h)
    | other name =>
      rw [hopt] at h
      have hreport := @optionsDid_foreign no s ignored word (ignoredOption isPool name)
      dsimp only at h ⊢
      by_cases htakes : takesValue name = true
      · rw [if_pos htakes] at h ⊢
        cases rest with
        | nil =>
          cases h
          exact hreport
        | cons value rest =>
          exact hreport.trans ((optionsDid_argument _).trans (serverOptions_did h))
      · rw [if_neg htakes] at h ⊢
        exact hreport.trans (serverOptions_did h)

/-! ## One line -/

/-- A word that a server is made of. -/
def Role.OfServer : Role → Prop
  | .server _ => True
  | .host => True
  | .iburst => True
  | .minPoll => True
  | .maxPoll => True
  | _ => False

/-- A server made of the words of a line. -/
structure Made (words : List (String × Role)) (s : ServerDirective) : Prop where
  isPool : ∀ p ∈ words, ∀ isPool, p.2 = .server isPool → s.isPool = isPool
  host : ∀ p ∈ words, p.2 = .host → s.host = p.1
  iburst : ∀ p ∈ words, p.2 = .iburst → s.iburst = true
  minPoll : s.minPoll = (values parseI8 .minPoll words).getLast?
  maxPoll : s.maxPoll = (values parseI8 .maxPoll words).getLast?

/-- A word that has a number for a value parses as one. -/
structure Parses (parseF64 : String → Option F) (p : String × Role) : Prop where
  minPoll : p.2 = .minPoll → (parseI8 p.1).isSome = true
  maxPoll : p.2 = .maxPoll → (parseI8 p.1).isSome = true
  threshold : p.2 = .threshold → (parseF64 p.1).isSome = true
  limit : p.2 = .limit → (parseI64 p.1).isSome = true
  slew : p.2 = .slew → (parseF64 p.1).isSome = true

/-- What a limit becomes. -/
def limitU32 (word : String) : Option UInt32 := (parseI64 word).map limitAsU32

/-- What a line does to the configuration. -/
structure LineDid (parseF64 : String → Option F) (no : Nat) (words : List (String × Role))
    (cfg cfg' : Config F) : Prop where
  servers : (isServer words = true ∧ ∃ s, cfg'.servers = cfg.servers ++ [s] ∧ Made words s) ∨
    (isServer words = false ∧ cfg'.servers = cfg.servers ∧ ∀ p ∈ words, ¬p.2.OfServer)
  threshold : cfg'.makestep.map Prod.fst =
    (values parseF64 .threshold words).getLast?.or (cfg.makestep.map Prod.fst)
  limit : cfg'.makestep.map Prod.snd =
    (values limitU32 .limit words).getLast?.or (cfg.makestep.map Prod.snd)
  slew : cfg'.maxSlewPpm = (values parseF64 .slew words).getLast?.or cfg.maxSlewPpm
  allow : ∀ word, word ∈ cfg.allow ∨ (word, .allowed) ∈ words → word ∈ cfg'.allow
  deny : ∀ word, word ∈ cfg.deny ∨ (word, .denied) ∈ words → word ∈ cfg'.deny
  ignored : cfg'.ignored = cfg.ignored ++ reports no words
  parses : ∀ p ∈ words, Parses parseF64 p

theorem argumentRoles_nil (args : List String) :
    argumentRoles [] args = args.map fun word => (word, .further) := by
  induction args with
  | nil => rfl
  | cons word args ih => rw [argumentRoles, ih, List.map_cons]

/-- A role among the options of a server. -/
def Role.OfOption : Role → Prop
  | .iburst => True
  | .poll => True
  | .minPoll => True
  | .maxPoll => True
  | .foreign _ => True
  | .argument _ => True
  | _ => False

theorem optionRoles_ofOption (isPool : Bool) (options : List String) :
    ∀ p ∈ optionRoles isPool options, p.2.OfOption := by
  fun_induction optionRoles isPool options with
  | case1 => exact nofun
  | case2 word rest hopt ih => exact List.forall_mem_cons.2 ⟨trivial, ih⟩
  | case3 word hopt => exact List.forall_mem_singleton.2 trivial
  | case4 word hopt value rest ih =>
    exact List.forall_mem_cons.2 ⟨trivial, List.forall_mem_cons.2 ⟨trivial, ih⟩⟩
  | case5 word hopt => exact List.forall_mem_singleton.2 trivial
  | case6 word hopt value rest ih =>
    exact List.forall_mem_cons.2 ⟨trivial, List.forall_mem_cons.2 ⟨trivial, ih⟩⟩
  | case7 word name hopt report htakes => exact List.forall_mem_singleton.2 trivial
  | case8 word name hopt report htakes value rest ih =>
    exact List.forall_mem_cons.2 ⟨trivial, List.forall_mem_cons.2 ⟨trivial, ih⟩⟩
  | case9 word rest name hopt report htakes ih => exact List.forall_mem_cons.2 ⟨trivial, ih⟩

/-- An argument of what is not ours has that on its line. -/
def Covered (words : List (String × Role)) : Prop :=
  ∀ p ∈ words, ∀ report, p.2 = .argument report → ∃ q ∈ words, q.2 = .foreign report

theorem Covered.append {xs ys : List (String × Role)} (hx : Covered xs) (hy : Covered ys) :
    Covered (xs ++ ys) := by
  intro p hp report hrole
  rcases List.mem_append.1 hp with hp | hp
  · obtain ⟨q, hq, hforeign⟩ := hx p hp report hrole
    exact ⟨q, List.mem_append_left ys hq, hforeign⟩
  · obtain ⟨q, hq, hforeign⟩ := hy p hp report hrole
    exact ⟨q, List.mem_append_right xs hq, hforeign⟩

theorem covered_of_forall (words : List (String × Role))
    (h : ∀ p ∈ words, ∀ report, p.2 ≠ .argument report) : Covered words :=
  fun p hp report hrole => absurd hrole (h p hp report)

theorem covered_foreign {word : String} (args : List String) {report : String} :
    Covered ((word, .foreign report) :: args.map fun arg => (arg, .argument report)) := by
  intro p hp report' hrole
  refine ⟨_, List.mem_cons_self, ?_⟩
  rcases List.mem_cons.1 hp with rfl | hp
  · cases hrole
  · obtain ⟨arg, -, rfl⟩ := List.mem_map.1 hp
    cases hrole
    rfl

theorem optionRoles_covered (isPool : Bool) (options : List String) :
    Covered (optionRoles isPool options) := by
  fun_induction optionRoles isPool options with
  | case1 => exact nofun
  | case2 word rest hopt ih =>
    exact (covered_of_forall [(word, .iburst)] (by simp)).append ih
  | case3 word hopt => exact covered_of_forall _ (by simp)
  | case4 word hopt value rest ih =>
    exact (covered_of_forall [(word, .poll), (value, .minPoll)] (by simp)).append ih
  | case5 word hopt => exact covered_of_forall _ (by simp)
  | case6 word hopt value rest ih =>
    exact (covered_of_forall [(word, .poll), (value, .maxPoll)] (by simp)).append ih
  | case7 word name hopt report htakes => exact covered_foreign []
  | case8 word name hopt report htakes value rest ih =>
    exact (covered_foreign [value]).append ih
  | case9 word rest name hopt report htakes ih => exact (covered_foreign []).append ih

theorem values_eq_nil {f : String → Option α} {role : Role} {words : List (String × Role)}
    (h : ∀ p ∈ words, p.2 ≠ role) : values f role words = [] :=
  List.filterMap_eq_nil_iff.2 fun p hp => if_neg (h p hp)

section

variable {no : Nat} {cfg : Config F} {word : String}

theorem lineDid_comment : LineDid parseF64 no [] cfg cfg := by
  constructor <;> simp [isServer, reports]

theorem lineDid_makestep {t l : String} {v : F} {n : Int} (ht : parseF64 t = some v)
    (hl : parseI64 l = some n) (further : List String) :
    LineDid parseF64 no
      ((word, .directive) :: argumentRoles [.threshold, .limit] (t :: l :: further))
      cfg { cfg with makestep := some (v, limitAsU32 n) } := by
  simp only [argumentRoles, argumentRoles_nil]
  constructor
  · simp [isServer, Role.OfServer]
  · simp [values, ht]
  · simp [values, limitU32, hl]
  · simp [values]
  · simp
  · simp
  · simp [reports]
  · refine List.forall_mem_cons.2 ⟨?_, List.forall_mem_cons.2 ⟨?_, List.forall_mem_cons.2 ⟨?_,
      List.forall_mem_map.2 fun w _ => ?_⟩⟩⟩ <;> constructor <;> simp [ht, hl]

theorem lineDid_maxSlewRate {ppm : String} {v : F} (hppm : parseF64 ppm = some v)
    (further : List String) :
    LineDid parseF64 no ((word, .directive) :: argumentRoles [.slew] (ppm :: further)) cfg
      { cfg with maxSlewPpm := some v } := by
  simp only [argumentRoles, argumentRoles_nil]
  constructor
  · simp [isServer, Role.OfServer]
  · simp [values]
  · simp [values]
  · simp [values, hppm]
  · simp
  · simp
  · simp [reports]
  · refine List.forall_mem_cons.2 ⟨?_, List.forall_mem_cons.2 ⟨?_,
      List.forall_mem_map.2 fun w _ => ?_⟩⟩ <;> constructor <;> simp [hppm]

/-- A role of a line of `allow` or `deny`. -/
def Role.OfList : Role → Prop
  | .directive => True
  | .allowed => True
  | .denied => True
  | .further => True
  | _ => False

theorem lineDid_list {words : List (String × Role)} (hwords : ∀ p ∈ words, p.2.OfList)
    {allow deny : List String}
    (hallow : ∀ word, word ∈ cfg.allow ∨ (word, .allowed) ∈ words → word ∈ allow)
    (hdeny : ∀ word, word ∈ cfg.deny ∨ (word, .denied) ∈ words → word ∈ deny) :
    LineDid parseF64 no words cfg { cfg with allow := allow, deny := deny } := by
  have hno : ∀ role : Role, ¬role.OfList → ∀ p ∈ words, p.2 ≠ role := by
    rintro role hrole p hp rfl
    exact hrole (hwords p hp)
  have hserver : isServer words = false :=
    List.any_eq_false.2 fun p hp => by simpa using hno .host id p hp
  constructor
  · refine .inr ⟨hserver, rfl, fun p hp hof => ?_⟩
    have hlist := hwords p hp
    generalize p.2 = role at hof hlist
    cases role <;> first | exact hof | exact hlist
  · rw [values_eq_nil (hno .threshold id)]
    rfl
  · rw [values_eq_nil (hno .limit id)]
    rfl
  · rw [values_eq_nil (hno .slew id)]
    rfl
  · exact hallow
  · exact hdeny
  · have hreports : reports no words = [] := by
      refine List.filterMap_eq_nil_iff.2 fun p hp => ?_
      split
      · next report hforeign => exact absurd hforeign (hno (.foreign report) id p hp)
      · rfl
    rw [hreports, List.append_nil]
  · intro p hp
    exact ⟨fun h => absurd h (hno .minPoll id p hp), fun h => absurd h (hno .maxPoll id p hp),
      fun h => absurd h (hno .threshold id p hp), fun h => absurd h (hno .limit id p hp),
      fun h => absurd h (hno .slew id p hp)⟩

theorem lineDid_allow (args : List String) :
    LineDid parseF64 no ((word, .directive) :: argumentRoles [.allowed] args) cfg
      { cfg with allow := cfg.allow ++ [args.head?.getD "all"] } := by
  cases args with
  | nil => refine lineDid_list ?_ ?_ ?_ <;> simp +contextual [argumentRoles, Role.OfList]
  | cons arg further =>
    refine lineDid_list ?_ ?_ ?_ <;> simp [argumentRoles, argumentRoles_nil, Role.OfList]

theorem lineDid_deny (args : List String) :
    LineDid parseF64 no ((word, .directive) :: argumentRoles [.denied] args) cfg
      { cfg with deny := cfg.deny ++ [args.head?.getD "all"] } := by
  cases args with
  | nil => refine lineDid_list ?_ ?_ ?_ <;> simp +contextual [argumentRoles, Role.OfList]
  | cons arg further =>
    refine lineDid_list ?_ ?_ ?_ <;> simp [argumentRoles, argumentRoles_nil, Role.OfList]

theorem lineDid_server {isPool : Bool} {host : String} {options : List String}
    {s : ServerDirective} {ignored : List (Nat × String)}
    (h : OptionsDid no (optionRoles isPool options) ⟨host, isPool, false, none, none⟩ s
      cfg.ignored ignored) :
    LineDid parseF64 no ((word, .server isPool) :: (host, .host) :: optionRoles isPool options) cfg
      { cfg with servers := cfg.servers ++ [s], ignored := ignored } := by
  have hno : ∀ role : Role, ¬role.OfOption → ∀ p ∈ optionRoles isPool options, p.2 ≠ role := by
    rintro role hrole p hp rfl
    exact hrole (optionRoles_ofOption isPool options p hp)
  have hnone : ∀ role : Role, ¬role.OfOption → role ≠ .server isPool → role ≠ .host →
      ∀ p ∈ (word, .server isPool) :: (host, .host) :: optionRoles isPool options,
        p.2 ≠ role := fun role hrole hserver hhost =>
    List.forall_mem_cons.2 ⟨hserver.symm, List.forall_mem_cons.2 ⟨hhost.symm, hno role hrole⟩⟩
  have hvalues : ∀ role : Role, role ≠ .server isPool → role ≠ .host →
      values parseI8 role ((word, .server isPool) :: (host, .host) ::
        optionRoles isPool options) = values parseI8 role (optionRoles isPool options) := by
    intro role hserver hhost
    rw [values_cons_of_ne _ hserver.symm, values_cons_of_ne _ hhost.symm]
  constructor
  · refine .inl ⟨by simp [isServer], s, rfl, ?_, ?_, ?_, ?_, ?_⟩
    · refine List.forall_mem_cons.2 ⟨?_, List.forall_mem_cons.2 ⟨nofun, fun p hp b hb => ?_⟩⟩
      · rintro b ⟨⟩
        exact h.isPool
      · exact absurd hb (hno (.server b) id p hp)
    · exact List.forall_mem_cons.2 ⟨nofun, List.forall_mem_cons.2 ⟨fun _ => h.host,
        fun p hp hb => absurd hb (hno .host id p hp)⟩⟩
    · exact List.forall_mem_cons.2 ⟨nofun, List.forall_mem_cons.2 ⟨nofun,
        fun p hp hb => h.iburst (.inr ⟨p, hp, hb⟩)⟩⟩
    · rw [hvalues .minPoll nofun nofun, h.minPoll, Option.or_none]
    · rw [hvalues .maxPoll nofun nofun, h.maxPoll, Option.or_none]
  · rw [values_eq_nil (hnone .threshold id nofun nofun)]
    rfl
  · rw [values_eq_nil (hnone .limit id nofun nofun)]
    rfl
  · rw [values_eq_nil (hnone .slew id nofun nofun)]
    rfl
  · exact fun w hw => hw.resolve_right fun hmem => hnone .allowed id nofun nofun _ hmem rfl
  · exact fun w hw => hw.resolve_right fun hmem => hnone .denied id nofun nofun _ hmem rfl
  · exact h.ignored
  · refine List.forall_mem_cons.2 ⟨⟨nofun, nofun, nofun, nofun, nofun⟩,
      List.forall_mem_cons.2 ⟨⟨nofun, nofun, nofun, nofun, nofun⟩, fun p hp => ?_⟩⟩
    exact ⟨h.minParses p hp, h.maxParses p hp, fun hb => absurd hb (hno .threshold id p hp),
      fun hb => absurd hb (hno .limit id p hp), fun hb => absurd hb (hno .slew id p hp)⟩

theorem lineDid_other (name : String) (args : List String) :
    LineDid parseF64 no ((word, .foreign name) :: args.map fun arg => (arg, .argument name)) cfg
      { cfg with ignored := cfg.ignored ++ [(no, name)] } := by
  constructor
  · simp [isServer, Role.OfServer]
  · simp [values]
  · simp [values]
  · simp [values]
  · simp
  · simp
  · simp [reports]
  · refine List.forall_mem_cons.2 ⟨?_, List.forall_mem_map.2 fun w _ => ?_⟩ <;> constructor <;> simp

end

theorem parseLine_did {no : Nat} {cfg cfg' : Config F} {raw : String}
    (h : parseLine parseF64 no cfg raw = .ok cfg') :
    LineDid parseF64 no (labels raw) cfg cfg' := by
  unfold parseLine at h
  unfold labels
  cases hline : directiveOf raw with
  | none =>
    rw [hline] at h
    cases h
    exact lineDid_comment
  | some line =>
    obtain ⟨word, args⟩ := line
    rw [hline] at h
    dsimp only at h ⊢
    cases hdir : Directive.of word with
    | server isPool =>
      rw [hdir] at h
      cases args with
      | nil => cases h
      | cons host options =>
        obtain ⟨⟨s, ignored⟩, hoptions, h⟩ := bind_eq_ok.1 h
        cases h
        exact lineDid_server (serverOptions_did hoptions)
    | makestep =>
      rw [hdir] at h
      obtain ⟨v, hv, h⟩ := bind_eq_ok.1 h
      obtain ⟨n, hn, h⟩ := bind_eq_ok.1 h
      cases h
      match args, hv, hn with
      | t :: l :: further, hv, hn =>
        exact lineDid_makestep (parseNum_eq_ok.1 hv) (parseNum_eq_ok.1 hn) further
    | maxSlewRate =>
      rw [hdir] at h
      obtain ⟨v, hv, h⟩ := bind_eq_ok.1 h
      cases h
      match args, hv with
      | ppm :: further, hv => exact lineDid_maxSlewRate (parseNum_eq_ok.1 hv) further
    | allow =>
      rw [hdir] at h
      cases h
      exact lineDid_allow args
    | deny =>
      rw [hdir] at h
      cases h
      exact lineDid_deny args
    | other name =>
      rw [hdir] at h
      cases h
      exact lineDid_other name args

/-! ## All lines -/

/-- What the lines do, one after another. -/
structure TextDid (parseF64 : String → Option F) (ls : List Line) (cfg cfg' : Config F) : Prop where
  before : cfg.servers <+: cfg'.servers
  servers : ∀ line ∈ ls, (∃ s, cfg'.servers[line.servers]? = some s ∧ Made line.words s) ∨
    ∀ p ∈ line.words, ¬p.2.OfServer
  threshold : cfg'.makestep.map Prod.fst =
    (values parseF64 .threshold (ls.flatMap Line.words)).getLast?.or (cfg.makestep.map Prod.fst)
  limit : cfg'.makestep.map Prod.snd =
    (values limitU32 .limit (ls.flatMap Line.words)).getLast?.or (cfg.makestep.map Prod.snd)
  slew : cfg'.maxSlewPpm =
    (values parseF64 .slew (ls.flatMap Line.words)).getLast?.or cfg.maxSlewPpm
  allow : ∀ word, word ∈ cfg.allow ∨ (word, .allowed) ∈ ls.flatMap Line.words → word ∈ cfg'.allow
  deny : ∀ word, word ∈ cfg.deny ∨ (word, .denied) ∈ ls.flatMap Line.words → word ∈ cfg'.deny
  ignored : cfg'.ignored = cfg.ignored ++ ls.flatMap fun line => reports line.no line.words
  parses : ∀ line ∈ ls, ∀ p ∈ line.words, Parses parseF64 p

/-- A line, and the lines after it. -/
theorem TextDid.cons {line : Line} {ls : List Line} {cfg cfg₁ cfg' : Config F}
    (hfirst : LineDid parseF64 line.no line.words cfg cfg₁) (hlater : TextDid parseF64 ls cfg₁ cfg')
    (hplace : line.servers = cfg.servers.length) : TextDid parseF64 (line :: ls) cfg cfg' where
  before := by
    refine List.IsPrefix.trans ?_ hlater.before
    rcases hfirst.servers with ⟨-, s, hs, -⟩ | ⟨-, hs, -⟩
    · rw [hs]
      exact List.prefix_append _ _
    · exact hs ▸ List.prefix_rfl
  servers := by
    refine List.forall_mem_cons.2 ⟨?_, hlater.servers⟩
    obtain ⟨more, hmore⟩ := hlater.before
    rcases hfirst.servers with ⟨-, s, hs, hwords⟩ | ⟨-, -, hwords⟩
    · refine .inl ⟨s, ?_, hwords⟩
      rw [hplace, ← hmore, hs, List.append_assoc, List.getElem?_append_right (Nat.le_refl _),
        Nat.sub_self]
      rfl
    · exact .inr hwords
  threshold := by
    rw [hlater.threshold, hfirst.threshold, List.flatMap_cons, values_append, List.getLast?_append,
      Option.or_assoc]
  limit := by
    rw [hlater.limit, hfirst.limit, List.flatMap_cons, values_append, List.getLast?_append,
      Option.or_assoc]
  slew := by
    rw [hlater.slew, hfirst.slew, List.flatMap_cons, values_append, List.getLast?_append,
      Option.or_assoc]
  allow word hword := by
    rw [List.flatMap_cons, List.mem_append, ← or_assoc] at hword
    exact hlater.allow word (hword.imp_left (hfirst.allow word))
  deny word hword := by
    rw [List.flatMap_cons, List.mem_append, ← or_assoc] at hword
    exact hlater.deny word (hword.imp_left (hfirst.deny word))
  ignored := by rw [hlater.ignored, hfirst.ignored, List.flatMap_cons, List.append_assoc]
  parses := List.forall_mem_cons.2 ⟨hfirst.parses, hlater.parses⟩

theorem parseLines_did {no : Nat} {cfg cfg' : Config F} {raws : List String}
    (h : parseLines parseF64 no cfg raws = .ok cfg') :
    TextDid parseF64 (numbered no cfg.servers.length raws) cfg cfg' := by
  induction raws generalizing no cfg with
  | nil =>
    cases h
    constructor <;> simp [numbered]
  | cons raw raws ih =>
    obtain ⟨cfg₁, hline, hrest⟩ := bind_eq_ok.1 h
    have hfirst := parseLine_did hline
    have hcount : cfg₁.servers.length =
        if isServer (labels raw) = true then cfg.servers.length + 1 else cfg.servers.length := by
      rcases hfirst.servers with ⟨hserver, s, hs, -⟩ | ⟨hserver, hs, -⟩
      · rw [hs, hserver, if_pos rfl, List.length_append, List.length_singleton]
      · rw [hs, hserver, if_neg Bool.false_ne_true]
    have hlater := ih hrest
    rw [hcount] at hlater
    rw [numbered]
    exact .cons hfirst hlater rfl

/-! ## Line numbers -/

theorem mem_numbered_cons {no servers : Nat} {raw : String} {raws : List String} {line : Line} :
    line ∈ numbered no servers (raw :: raws) ↔ line = ⟨no, servers, labels raw⟩ ∨
      line ∈ numbered (no + 1) (if isServer (labels raw) then servers + 1 else servers) raws := by
  rw [numbered, List.mem_cons]

theorem no_le_of_mem_numbered {no servers : Nat} {raws : List String} {line : Line}
    (h : line ∈ numbered no servers raws) : no ≤ line.no := by
  induction raws generalizing no servers with
  | nil => cases h
  | cons raw raws ih =>
    rcases mem_numbered_cons.1 h with rfl | h
    · exact Nat.le_refl no
    · exact Nat.le_of_succ_le (ih h)

/-- A number names one line. -/
theorem eq_of_mem_numbered {no servers : Nat} {raws : List String} {a b : Line}
    (ha : a ∈ numbered no servers raws) (hb : b ∈ numbered no servers raws) (h : a.no = b.no) :
    a = b := by
  induction raws generalizing no servers with
  | nil => cases ha
  | cons raw raws ih =>
    rcases mem_numbered_cons.1 ha with rfl | ha
    · rcases mem_numbered_cons.1 hb with rfl | hb
      · rfl
      · exact absurd (no_le_of_mem_numbered hb) (by rw [← h]; exact Nat.not_succ_le_self no)
    · rcases mem_numbered_cons.1 hb with rfl | hb
      · exact absurd (no_le_of_mem_numbered ha) (by rw [h]; exact Nat.not_succ_le_self no)
      · exact ih ha hb

theorem exists_raw_of_mem_numbered {no servers : Nat} {raws : List String} {line : Line}
    (h : line ∈ numbered no servers raws) : ∃ raw, line.words = labels raw := by
  induction raws generalizing no servers with
  | nil => cases h
  | cons raw raws ih =>
    rcases mem_numbered_cons.1 h with rfl | h
    · exact ⟨raw, rfl⟩
    · exact ih h

/-! ## The words of a line -/

theorem role_of_mem_argumentRoles {roles : List Role} {args : List String}
    {p : String × Role} (h : p ∈ argumentRoles roles args) : p.2 ∈ roles ∨ p.2 = .further := by
  induction args generalizing roles with
  | nil => cases roles <;> cases h
  | cons word args ih =>
    cases roles with
    | nil =>
      rcases List.mem_cons.1 h with rfl | h
      · exact .inr rfl
      · exact ih h
    | cons role roles =>
      rcases List.mem_cons.1 h with rfl | h
      · exact .inl List.mem_cons_self
      · exact (ih h).imp_left (List.mem_cons_of_mem role)

/-- A line of a directive that is ours and no server reports nothing; on the others no word is
beyond the arguments. -/
theorem labels_kinds (raw : String) :
    (∀ p ∈ labels raw, ∀ report, p.2 ≠ .foreign report ∧ p.2 ≠ .argument report) ∨
      (Covered (labels raw) ∧ ∀ p ∈ labels raw, p.2 ≠ .further) := by
  have harguments : ∀ (word : String) (roles : List Role) (args : List String),
      (∀ role ∈ roles, ∀ report, role ≠ .foreign report ∧ role ≠ .argument report) →
      ∀ p ∈ (word, Role.directive) :: argumentRoles roles args, ∀ report,
        p.2 ≠ .foreign report ∧ p.2 ≠ .argument report := by
    intro word roles args hroles
    refine List.forall_mem_cons.2 ⟨fun report => ⟨nofun, nofun⟩, fun p hp report => ?_⟩
    rcases role_of_mem_argumentRoles hp with hrole | hrole
    · exact hroles p.2 hrole report
    · rw [hrole]
      exact ⟨nofun, nofun⟩
  unfold labels
  cases directiveOf raw with
  | none => exact .inl nofun
  | some line =>
    obtain ⟨word, args⟩ := line
    dsimp only
    cases Directive.of word with
    | server isPool =>
      refine .inr ?_
      cases args with
      | nil => exact ⟨covered_of_forall _ (by simp [argsRoles, keywordRole]),
          by simp [argsRoles, keywordRole]⟩
      | cons host options =>
        refine ⟨(covered_of_forall [(word, .server isPool), (host, .host)]
          (by simp)).append (optionRoles_covered isPool options), ?_⟩
        refine List.forall_mem_cons.2 ⟨nofun, List.forall_mem_cons.2 ⟨nofun, fun p hp hrole => ?_⟩⟩
        have hof := optionRoles_ofOption isPool options p hp
        rw [hrole] at hof
        exact hof
    | makestep => exact .inl (harguments word _ args (by simp))
    | maxSlewRate => exact .inl (harguments word _ args (by simp))
    | allow => exact .inl (harguments word _ args (by simp))
    | deny => exact .inl (harguments word _ args (by simp))
    | other name =>
      refine .inr ⟨covered_foreign _, ?_⟩
      exact List.forall_mem_cons.2 ⟨nofun, List.forall_mem_map.2 fun _ _ => nofun⟩

/-! ## Limits -/

theorem limitAsU32_eq (v : Int) : limitAsU32 v = UInt32.ofNat (limitMeant v).toNat := by
  unfold limitAsU32 limitMeant
  split <;> rfl

/-- What a limit becomes is what it says, where that fits. -/
theorem toNat_limitAsU32 {v : Int} (h : v ≤ 4294967295) :
    ((limitAsU32 v).toNat : Int) = limitMeant v := by
  have hmeant : 0 ≤ limitMeant v ∧ limitMeant v ≤ 4294967295 := by
    unfold limitMeant
    split <;> omega
  rw [limitAsU32_eq, UInt32.toNat_ofNat_of_lt' (by
    show (limitMeant v).toNat < 4294967296
    omega)]
  omega

theorem Same.limitU32 {words : List (String × Role)} (h : Same limitOf .limit words) :
    Same limitU32 .limit words := by
  have heq : ∀ word, ConfigFile.limitU32 word =
      (limitOf word).map fun v => UInt32.ofNat v.toNat := by
    intro word
    unfold ConfigFile.limitU32 limitOf
    rw [Option.map_map]
    exact congrArg (fun f => (parseI64 word).map f) (funext limitAsU32_eq)
  intro p hp q hq hprole hqrole
  rw [heq, heq, h p hp q hq hprole hqrole]

/-! ## Dropped words -/

section

variable {text : String} {cfg : Config F}

/-- No line with a word beyond its arguments is reported. -/
theorem not_reported_of_further
    (hdid : TextDid parseF64 (numbered 1 0 (lines text)) (.empty F) cfg) {line : Line}
    (hline : line ∈ numbered 1 0 (lines text)) {p : String × Role} (hp : p ∈ line.words)
    (hrole : p.2 = .further) (report : String) : (line.no, report) ∉ cfg.ignored := by
  intro hmem
  rw [hdid.ignored] at hmem
  obtain ⟨line', hline', hmem⟩ := List.mem_flatMap.1 ((List.mem_append.1 hmem).resolve_left nofun)
  obtain ⟨q, hq, hreport⟩ := List.mem_filterMap.1 hmem
  split at hreport
  · next report' hforeign =>
    obtain ⟨hno, rfl⟩ := Prod.mk.inj (Option.some.inj hreport)
    obtain rfl := eq_of_mem_numbered hline' hline hno
    obtain ⟨raw, hraw⟩ := exists_raw_of_mem_numbered hline
    rw [hraw] at hp hq
    rcases labels_kinds raw with hnone | ⟨-, hnone⟩
    · exact (hnone q hq _).1 hforeign
    · exact hnone p hp hrole
  · cases hreport

theorem tidy_of_nothingDropped
    (hdid : TextDid parseF64 (numbered 1 0 (lines text)) (.empty F) cfg)
    (h : NothingDropped parseF64 text cfg) : Tidy parseF64 text where
  further line hline p hp hrole := by
    have hkept := h line hline p hp
    rw [hrole] at hkept
    obtain ⟨report, hreport⟩ := hkept
    exact not_reported_of_further hdid hline hp hrole report hreport
  minPoll line hline p hp q hq hprole hqrole := by
    have hp := h line hline p hp
    have hq := h line hline q hq
    rw [hprole] at hp
    rw [hqrole] at hq
    obtain ⟨s, v, hs, hv, hpoll⟩ := hp
    obtain ⟨s', v', hs', hv', hpoll'⟩ := hq
    obtain rfl := Option.some.inj (hs.symm.trans hs')
    rw [hv, hv', ← hpoll, hpoll']
  maxPoll line hline p hp q hq hprole hqrole := by
    have hp := h line hline p hp
    have hq := h line hline q hq
    rw [hprole] at hp
    rw [hqrole] at hq
    obtain ⟨s, v, hs, hv, hpoll⟩ := hp
    obtain ⟨s', v', hs', hv', hpoll'⟩ := hq
    obtain rfl := Option.some.inj (hs.symm.trans hs')
    rw [hv, hv', ← hpoll, hpoll']
  threshold p hp q hq hprole hqrole := by
    obtain ⟨line, hline, hp⟩ := List.mem_flatMap.1 hp
    obtain ⟨line', hline', hq⟩ := List.mem_flatMap.1 hq
    have hp := h line hline p hp
    have hq := h line' hline' q hq
    rw [hprole] at hp
    rw [hqrole] at hq
    obtain ⟨v, limit, hv, hstep⟩ := hp
    obtain ⟨v', limit', hv', hstep'⟩ := hq
    cases hstep.symm.trans hstep'
    rw [hv, hv']
  limit p hp q hq hprole hqrole := by
    obtain ⟨line, hline, hp⟩ := List.mem_flatMap.1 hp
    obtain ⟨line', hline', hq⟩ := List.mem_flatMap.1 hq
    have hp := h line hline p hp
    have hq := h line' hline' q hq
    rw [hprole] at hp
    rw [hqrole] at hq
    obtain ⟨v, threshold, limit, hv, hstep, hmeant⟩ := hp
    obtain ⟨v', threshold', limit', hv', hstep', hmeant'⟩ := hq
    cases hstep.symm.trans hstep'
    rw [limitOf, limitOf, hv, hv', Option.map_some, Option.map_some, ← hmeant, hmeant']
  fits line hline p hp hrole limit hlimit := by
    have hp := h line hline p hp
    rw [hrole] at hp
    obtain ⟨v, threshold, u, hv, -, hmeant⟩ := hp
    obtain rfl : limit = v := Option.some.inj (hlimit.symm.trans hv)
    have hlt := u.toNat_lt
    unfold limitMeant at hmeant
    split at hmeant <;> omega
  slew p hp q hq hprole hqrole := by
    obtain ⟨line, hline, hp⟩ := List.mem_flatMap.1 hp
    obtain ⟨line', hline', hq⟩ := List.mem_flatMap.1 hq
    have hp := h line hline p hp
    have hq := h line' hline' q hq
    rw [hprole] at hp
    rw [hqrole] at hq
    obtain ⟨v, hv, hslew⟩ := hp
    obtain ⟨v', hv', hslew'⟩ := hq
    rw [hv, hv', ← hslew, hslew']

/-- The server of a line that has a word of one. -/
theorem exists_made (hdid : TextDid parseF64 (numbered 1 0 (lines text)) (.empty F) cfg)
    {line : Line} (hline : line ∈ numbered 1 0 (lines text)) {p : String × Role}
    (hp : p ∈ line.words) (hrole : p.2.OfServer) :
    ∃ s, cfg.servers[line.servers]? = some s ∧ Made line.words s :=
  (hdid.servers line hline).resolve_right fun hnone => hnone p hp hrole

theorem nothingDropped_of_tidy
    (hdid : TextDid parseF64 (numbered 1 0 (lines text)) (.empty F) cfg)
    (h : Tidy parseF64 text) : NothingDropped parseF64 text cfg := by
  intro line hline p hp
  have hall : p ∈ (numbered 1 0 (lines text)).flatMap Line.words :=
    List.mem_flatMap.2 ⟨line, hline, hp⟩
  have hparses := hdid.parses line hline p hp
  have hreports : ∀ q ∈ line.words, ∀ report, q.2 = .foreign report →
      (line.no, report) ∈ cfg.ignored := by
    intro q hq report hforeign
    rw [hdid.ignored]
    refine List.mem_append_right _ (List.mem_flatMap.2 ⟨line, hline, ?_⟩)
    exact List.mem_filterMap.2 ⟨q, hq, by rw [hforeign]⟩
  cases hrole : p.2 with
  | directive => trivial
  | server isPool =>
    obtain ⟨s, hs, hmade⟩ := exists_made hdid hline hp (by rw [hrole]; trivial)
    exact ⟨s, hs, hmade.isPool p hp isPool hrole⟩
  | host =>
    obtain ⟨s, hs, hmade⟩ := exists_made hdid hline hp (by rw [hrole]; trivial)
    exact ⟨s, hs, hmade.host p hp hrole⟩
  | iburst =>
    obtain ⟨s, hs, hmade⟩ := exists_made hdid hline hp (by rw [hrole]; trivial)
    exact ⟨s, hs, hmade.iburst p hp hrole⟩
  | poll => trivial
  | minPoll =>
    obtain ⟨s, hs, hmade⟩ := exists_made hdid hline hp (by rw [hrole]; trivial)
    obtain ⟨v, hv⟩ := Option.isSome_iff_exists.1 (hparses.minPoll hrole)
    exact ⟨s, v, hs, hv, hmade.minPoll.trans ((h.minPoll line hline).eq_getLast? hp hrole hv)⟩
  | maxPoll =>
    obtain ⟨s, hs, hmade⟩ := exists_made hdid hline hp (by rw [hrole]; trivial)
    obtain ⟨v, hv⟩ := Option.isSome_iff_exists.1 (hparses.maxPoll hrole)
    exact ⟨s, v, hs, hv, hmade.maxPoll.trans ((h.maxPoll line hline).eq_getLast? hp hrole hv)⟩
  | threshold =>
    obtain ⟨v, hv⟩ := Option.isSome_iff_exists.1 (hparses.threshold hrole)
    have hstep := hdid.threshold
    rw [h.threshold.eq_getLast? hall hrole hv] at hstep
    obtain ⟨⟨v', limit⟩, hmakestep, rfl⟩ := Option.map_eq_some_iff.1 hstep
    exact ⟨_, limit, hv, hmakestep⟩
  | limit =>
    obtain ⟨v, hv⟩ := Option.isSome_iff_exists.1 (hparses.limit hrole)
    have hstep := hdid.limit
    rw [h.limit.limitU32.eq_getLast? hall hrole (by rw [limitU32, hv]; rfl)] at hstep
    obtain ⟨⟨threshold, limit⟩, hmakestep, hlimit⟩ := Option.map_eq_some_iff.1 hstep
    refine ⟨v, threshold, limit, hv, hmakestep, ?_⟩
    rw [show limit = limitAsU32 v from hlimit]
    exact toNat_limitAsU32 (h.fits line hline p hp hrole v hv)
  | slew =>
    obtain ⟨v, hv⟩ := Option.isSome_iff_exists.1 (hparses.slew hrole)
    have hslew := hdid.slew
    rw [h.slew.eq_getLast? hall hrole hv] at hslew
    exact ⟨v, hv, hslew⟩
  | allowed => exact hdid.allow p.1 (.inr (by rw [← hrole]; exact hall))
  | denied => exact hdid.deny p.1 (.inr (by rw [← hrole]; exact hall))
  | foreign report => exact hreports p hp report hrole
  | argument report =>
    obtain ⟨raw, hraw⟩ := exists_raw_of_mem_numbered hline
    rcases labels_kinds raw with hnone | ⟨hcovered, -⟩
    · exact absurd hrole (hnone p (by rw [← hraw]; exact hp) report).2
    · obtain ⟨q, hq, hforeign⟩ := hcovered p (by rw [← hraw]; exact hp) report hrole
      exact hreports q (by rw [hraw]; exact hq) report hforeign
  | further => exact absurd hrole (h.further line hline p hp)

end

/-! ## One more word -/

/-- A full line is read the same with one more word. -/
theorem parseLine_oneMore {raw raw' directive word : String} {args : List String}
    (h : directiveOf raw = some (directive, args))
    (h' : directiveOf raw' = some (directive, args ++ [word])) (hfull : Full (.of directive) args)
    (no : Nat) (cfg : Config F) :
    parseLine parseF64 no cfg raw' = parseLine parseF64 no cfg raw := by
  unfold parseLine
  rw [h, h']
  dsimp only
  cases hdir : Directive.of directive with
  | server isPool =>
    rw [hdir] at hfull
    exact hfull.elim
  | makestep =>
    rw [hdir] at hfull
    have hlen : 2 ≤ args.length := hfull
    obtain ⟨t, rest, rfl⟩ := List.exists_cons_of_length_pos (show 0 < args.length by omega)
    rw [List.length_cons] at hlen
    obtain ⟨l, further, rfl⟩ := List.exists_cons_of_length_pos (show 0 < rest.length by omega)
    rfl
  | maxSlewRate =>
    rw [hdir] at hfull
    obtain ⟨arg, further, rfl⟩ := List.exists_cons_of_length_pos hfull
    rfl
  | allow =>
    rw [hdir] at hfull
    obtain ⟨arg, further, rfl⟩ := List.exists_cons_of_length_pos hfull
    rfl
  | deny =>
    rw [hdir] at hfull
    obtain ⟨arg, further, rfl⟩ := List.exists_cons_of_length_pos hfull
    rfl
  | other name => rfl

theorem parseLines_replace {raw raw' : String} (h : ∀ no (cfg : Config F),
      parseLine parseF64 no cfg raw' = parseLine parseF64 no cfg raw) (before after : List String)
    (no : Nat) (cfg : Config F) :
    parseLines parseF64 no cfg (before ++ raw' :: after) =
      parseLines parseF64 no cfg (before ++ raw :: after) := by
  induction before generalizing no cfg with
  | nil => rw [List.nil_append, List.nil_append, parseLines, parseLines, h]
  | cons line before ih =>
    rw [List.cons_append, List.cons_append, parseLines, parseLines]
    exact bind_congr fun cfg => ih (no + 1) cfg

/-- **One more word on a full line is not seen.** -/
theorem parse_oneMore {text text' : String} (h : OneMore text text') :
    parse parseF64 text' = parse parseF64 text := by
  obtain ⟨before, raw, raw', after, directive, args, word, hlines, hlines', hraw, hraw', hfull⟩ := h
  unfold parse
  rw [hlines, hlines']
  exact parseLines_replace (parseLine_oneMore hraw hraw' hfull) before after 1 (.empty F)

/-! ## What is dropped -/

/--
**Nothing is dropped of a text exactly when it is tidy.** A text that `parse` accepts loses no word
without a report if no word is beyond the arguments of its directive, an update limit fits its
type, and what is said twice is said alike; and only then. One more word on a line that has its
arguments changes nothing at all.
-/
theorem nothing_dropped_iff {text : String} {cfg : Config F}
    (h : parse parseF64 text = .ok cfg) :
    (NothingDropped parseF64 text cfg ↔ Tidy parseF64 text) ∧
      ∀ text', OneMore text text' → parse parseF64 text' = .ok cfg := by
  have hdid := parseLines_did h
  exact ⟨⟨tidy_of_nothingDropped hdid, nothingDropped_of_tidy hdid⟩,
    fun text' hmore => (parse_oneMore hmore).trans h⟩

/-- A text of each kind of line, with an option and a directive that are not ours. -/
def tidyText : String :=
  "# NTP servers\npool 2.pool.ntp.org iburst key 7\nmakestep 1 -1\nrtcsync\nallow 192.168.0.0/16"

def tidyConfig : Config Int :=
  { servers := [⟨"2.pool.ntp.org", true, true, none, none⟩]
    makestep := some (1, 4294967295)
    maxSlewPpm := none
    allow := ["192.168.0.0/16"]
    deny := []
    ignored := [(2, "pool option 'key'"), (4, "rtcsync")] }

/-- Its lines, and the part that each word plays. -/
def tidyLines : List Line :=
  [⟨1, 0, []⟩,
   ⟨2, 0, [("pool", .server true), ("2.pool.ntp.org", .host), ("iburst", .iburst),
    ("key", .foreign "pool option 'key'"), ("7", .argument "pool option 'key'")]⟩,
   ⟨3, 1, [("makestep", .directive), ("1", .threshold), ("-1", .limit)]⟩,
   ⟨4, 1, [("rtcsync", .foreign "rtcsync")]⟩,
   ⟨5, 1, [("allow", .directive), ("192.168.0.0/16", .allowed)]⟩]

theorem numbered_tidyText : numbered 1 0 (lines tidyText) = tidyLines := by decide +kernel

theorem nothing_dropped_iff_kinds :
    parse parseI64 tidyText = .ok tidyConfig ∧ NothingDropped parseI64 tidyText tidyConfig := by
  have hparse : parse parseI64 tidyText = .ok tidyConfig := by decide +kernel
  have htidy : Tidy parseI64 tidyText := by
    constructor <;> rw [numbered_tidyText]
    case fits =>
      intro line hline p hp hrole limit hlimit
      have hfits : ∀ line ∈ tidyLines, ∀ p ∈ line.words, p.2 = .limit →
          (parseI64 p.1).all (fun limit => limit ≤ 4294967295) = true := by decide +kernel
      have hlimits := hfits line hline p hp hrole
      rw [hlimit] at hlimits
      exact of_decide_eq_true hlimits
    all_goals decide +kernel
  exact ⟨hparse, (nothing_dropped_iff hparse).1.2 htidy⟩

/-- The subnet of chrony's `allow all` is neither in the configuration nor reported. -/
theorem subnet_dropped :
    parse parseI64 "allow all 10.0.0.0/8" = .ok { Config.empty Int with allow := ["all"] } ∧
      ¬NothingDropped parseI64 "allow all 10.0.0.0/8"
        { Config.empty Int with allow := ["all"] } := by
  have hwords : numbered 1 0 (lines "allow all 10.0.0.0/8") =
      [⟨1, 0, [("allow", .directive), ("all", .allowed), ("10.0.0.0/8", .further)]⟩] := by
    decide +kernel
  refine ⟨by decide +kernel, fun h => ?_⟩
  obtain ⟨report, hreport⟩ := h ⟨1, 0, _⟩ (by rw [hwords]; exact List.mem_cons_self)
    ("10.0.0.0/8", .further) (by simp)
  cases hreport

end RustyTime.ConfigFile
