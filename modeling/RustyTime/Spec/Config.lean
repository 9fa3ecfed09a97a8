import RustyTime.Core.Config

/-!
# What becomes of the words of a configuration

Every word of a line has a role, by its directive and its place. A word is kept if it is a keyword
that was acted on, a value that the configuration holds, or covered by an entry of `ignored` for
its line. A text is tidy if no word is beyond the arguments of its directive and no value is
overwritten by another one.
-/

namespace RustyTime.ConfigFile

/-! ## Roles -/

inductive Role where
  /-- The keyword of a directive other than `server` and `pool`. -/
  | directive
  | server (isPool : Bool)
  | host
  | iburst
  /-- The keyword `minpoll` or `maxpoll`. -/
  | poll
  | minPoll
  | maxPoll
  | threshold
  | limit
  | slew
  | allowed
  | denied
  /-- A directive or an option that is not ours, and what is reported of it. -/
  | foreign (report : String)
  /-- An argument of one. -/
  | argument (report : String)
  /-- A word beyond the arguments of a directive. -/
  | further
deriving DecidableEq

/-- The options of a server. -/
def optionRoles (isPool : Bool) : List String → List (String × Role)
  | [] => []
  | word :: rest =>
    match ServerOption.of word with
    | .iburst => (word, .iburst) :: optionRoles isPool rest
    | .minPoll =>
      match rest with
      | [] => [(word, .poll)]
      | value :: rest => (word, .poll) :: (value, .minPoll) :: optionRoles isPool rest
    | .maxPoll =>
      match rest with
      | [] => [(word, .poll)]
      | value :: rest => (word, .poll) :: (value, .maxPoll) :: optionRoles isPool rest
    | .other name =>
      let report := ignoredOption isPool name
      if takesValue name then
        match rest with
        | [] => [(word, .foreign report)]
        | value :: rest => (word, .foreign report) :: (value, .argument report) ::
          optionRoles isPool rest
      else (word, .foreign report) :: optionRoles isPool rest

/-- Arguments of the given roles, and words beyond them. -/
def argumentRoles : List Role → List String → List (String × Role)
  | _, [] => []
  | [], word :: rest => (word, .further) :: argumentRoles [] rest
  | role :: roles, word :: rest => (word, role) :: argumentRoles roles rest

/-- The arguments of a directive. -/
def argsRoles : Directive → List String → List (String × Role)
  | .server _, [] => []
  | .server isPool, host :: options => (host, .host) :: optionRoles isPool options
  | .makestep, args => argumentRoles [.threshold, .limit] args
  | .maxSlewRate, args => argumentRoles [.slew] args
  | .allow, args => argumentRoles [.allowed] args
  | .deny, args => argumentRoles [.denied] args
  | .other name, args => args.map fun word => (word, .argument name)

/-- The keyword of a directive. -/
def keywordRole : Directive → Role
  | .server isPool => .server isPool
  | .other name => .foreign name
  | _ => .directive

/-- The words of a line with their roles; a comment has none. -/
@[irreducible] def labels (raw : String) : List (String × Role) :=
  match directiveOf raw with
  | none => []
  | some (directive, args) =>
    (directive, keywordRole (.of directive)) :: argsRoles (.of directive) args

/-- A line: its number, how many servers there are before it, and its words. -/
structure Line where
  no : Nat
  servers : Nat
  words : List (String × Role)
deriving DecidableEq

/-- The line makes a server. -/
def isServer (words : List (String × Role)) : Bool := words.any fun p => p.2 = .host

def numbered : (no servers : Nat) → List String → List Line
  | _, _, [] => []
  | no, servers, raw :: rest =>
    ⟨no, servers, labels raw⟩ ::
      numbered (no + 1) (if isServer (labels raw) then servers + 1 else servers) rest

/-! ## Kept words -/

section

variable {F : Type} (parseF64 : String → Option F)

/-- What an update limit says: a negative one is always allowed. -/
def limitMeant (limit : Int) : Int := if limit < 0 then 4294967295 else limit

/-- The word is acted on, or its value is in the configuration, or it is reported. `server` is what
its line has made, if it makes a server. -/
def Role.Kept (cfg : Config F) (no : Nat) (server : Option ServerDirective) (word : String) :
    Role → Prop
  | .directive => True
  | .server isPool => ∃ s, server = some s ∧ s.isPool = isPool
  | .host => ∃ s, server = some s ∧ s.host = word
  | .iburst => ∃ s, server = some s ∧ s.iburst = true
  | .poll => True
  | .minPoll => ∃ s v, server = some s ∧ parseI8 word = some v ∧ s.minPoll = some v
  | .maxPoll => ∃ s v, server = some s ∧ parseI8 word = some v ∧ s.maxPoll = some v
  | .threshold => ∃ v limit, parseF64 word = some v ∧ cfg.makestep = some (v, limit)
  | .limit => ∃ v threshold limit, parseI64 word = some v ∧
    cfg.makestep = some (threshold, limit) ∧ (limit.toNat : Int) = limitMeant v
  | .slew => ∃ v, parseF64 word = some v ∧ cfg.maxSlewPpm = some v
  | .allowed => word ∈ cfg.allow
  | .denied => word ∈ cfg.deny
  | .foreign report => (no, report) ∈ cfg.ignored
  | .argument report => (no, report) ∈ cfg.ignored
  | .further => ∃ report, (no, report) ∈ cfg.ignored

/-- Every word of the text is kept. -/
def NothingDropped (text : String) (cfg : Config F) : Prop :=
  ∀ line ∈ numbered 1 0 (lines text), ∀ p ∈ line.words,
    p.2.Kept parseF64 cfg line.no cfg.servers[line.servers]? p.1

/-! ## Tidy texts -/

/-- The words of a role all say the same. -/
def Same {α : Type} (f : String → Option α) (role : Role) (words : List (String × Role)) : Prop :=
  ∀ p ∈ words, ∀ q ∈ words, p.2 = role → q.2 = role → f p.1 = f q.1

instance {α : Type} [DecidableEq α] (f : String → Option α) (role : Role)
    (words : List (String × Role)) : Decidable (Same f role words) :=
  inferInstanceAs (Decidable (∀ p ∈ words, ∀ q ∈ words, _ → _ → _))

/-- What a limit is read as. -/
def limitOf (word : String) : Option Int := (parseI64 word).map limitMeant

/-- No word is beyond the arguments of its directive, an update limit fits its type, and no value
is overwritten by another one: neither `minpoll` or `maxpoll` on one line, nor `makestep` or
`maxslewrate` on any. -/
structure Tidy (text : String) : Prop where
  further : ∀ line ∈ numbered 1 0 (lines text), ∀ p ∈ line.words, p.2 ≠ .further
  minPoll : ∀ line ∈ numbered 1 0 (lines text), Same parseI8 .minPoll line.words
  maxPoll : ∀ line ∈ numbered 1 0 (lines text), Same parseI8 .maxPoll line.words
  threshold : Same parseF64 .threshold ((numbered 1 0 (lines text)).flatMap Line.words)
  limit : Same limitOf .limit ((numbered 1 0 (lines text)).flatMap Line.words)
  fits : ∀ line ∈ numbered 1 0 (lines text), ∀ p ∈ line.words, p.2 = .limit →
    ∀ limit, parseI64 p.1 = some limit → limit ≤ 4294967295
  slew : Same parseF64 .slew ((numbered 1 0 (lines text)).flatMap Line.words)

end

/-! ## One more word -/

/-- The line has all the arguments of its directive. Neither `server` nor what is not ours ever
does. -/
def Full : Directive → List String → Prop
  | .makestep, args => 2 ≤ args.length
  | .maxSlewRate, args => 1 ≤ args.length
  | .allow, args => 1 ≤ args.length
  | .deny, args => 1 ≤ args.length
  | _, _ => False

/-- The second text has one more word at the end of a full line of the first. -/
def OneMore (text text' : String) : Prop :=
  ∃ before raw raw' after directive args word,
    lines text = before ++ raw :: after ∧ lines text' = before ++ raw' :: after ∧
      directiveOf raw = some (directive, args) ∧
      directiveOf raw' = some (directive, args ++ [word]) ∧ Full (.of directive) args

end RustyTime.ConfigFile
