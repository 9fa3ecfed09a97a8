import RustyTime.Core.Text

/-!
# The configuration file

`rusty_time-core/src/config.rs`: the documented subset of `chrony.conf`. How a number with a
fraction is read is a parameter, `parseF64`, and its type is any.
-/

namespace RustyTime.ConfigFile

/-! ## The configuration -/

structure ServerDirective where
  host : String
  isPool : Bool
  iburst : Bool
  minPoll : Option Int8
  maxPoll : Option Int8
deriving DecidableEq

/-- `Config`. -/
structure Config (F : Type) where
  servers : List ServerDirective
  /-- The threshold in seconds, and the update limit. -/
  makestep : Option (F × UInt32)
  maxSlewPpm : Option F
  allow : List String
  deny : List String
  /-- What was recognized as not ours, by line from one on. -/
  ignored : List (Nat × String)
deriving DecidableEq

structure ConfigError where
  line : Nat
  message : String
deriving DecidableEq

/-- `Config::default`. -/
def Config.empty (F : Type) : Config F := ⟨[], none, none, [], [], []⟩

/-! ## Words -/

/-- The directives that are ours. -/
inductive Directive where
  /-- `server`, or `pool`. -/
  | server (isPool : Bool)
  | makestep
  | maxSlewRate
  | allow
  | deny
  | other (name : String)
deriving DecidableEq

/-- The arms of the match on the directive. -/
def Directive.of (word : String) : Directive :=
  let name := toAsciiLowercase word
  if name = "server" then .server false
  else if name = "pool" then .server true
  else if name = "makestep" then .makestep
  else if name = "maxslewrate" then .maxSlewRate
  else if name = "allow" then .allow
  else if name = "deny" then .deny
  else .other name

/-- The `d` of a `server` or `pool` line. -/
def serverWord (isPool : Bool) : String := if isPool then "pool" else "server"

/-- The options of a server that are ours. -/
inductive ServerOption where
  | iburst
  | minPoll
  | maxPoll
  | other (name : String)
deriving DecidableEq

/-- The arms of the match on an option. -/
def ServerOption.of (word : String) : ServerOption :=
  let name := toAsciiLowercase word
  if name = "iburst" then .iburst
  else if name = "minpoll" then .minPoll
  else if name = "maxpoll" then .maxPoll
  else .other name

/-- An option of chrony's that is known to take a value. -/
def takesValue (name : String) : Bool :=
  ["key", "maxdelay", "maxdelayratio", "presend"].contains name

/-- What is reported of an option that is not ours. -/
def ignoredOption (isPool : Bool) (name : String) : String :=
  serverWord isPool ++ " option '" ++ name ++ "'"

/-- The directive of a line and its arguments; a comment has none. -/
def directiveOf (raw : String) : Option (String × List String) :=
  let line := trim raw
  match line.toList.head? with
  | none => none
  | some c =>
    if c ∈ ['!', ';', '#', '%'] then none
    else
      match splitWhitespace line with
      | [] => none
      | directive :: args => some (directive, args)

/-! ## Parsing -/

/-- `parse_num`. -/
def parseNum {α : Type} (fromStr : String → Option α) (line : Nat) (what : String) :
    Option String → Except ConfigError α
  | none => .error ⟨line, what ++ " needs a value"⟩
  | some v =>
    match fromStr v with
    | none => .error ⟨line, what ++ ": cannot parse '" ++ v ++ "'"⟩
    | some value => .ok value

/-- The loop over the options of a `server` line. -/
def serverOptions (line : Nat) (isPool : Bool) :
    List String → ServerDirective → List (Nat × String) →
    Except ConfigError (ServerDirective × List (Nat × String))
  | [], s, ignored => .ok (s, ignored)
  | word :: rest, s, ignored =>
    match ServerOption.of word with
    | .iburst => serverOptions line isPool rest { s with iburst := true } ignored
    | .minPoll =>
      match rest with
      | [] => .error ⟨line, "minpoll needs a value"⟩
      | value :: rest => do
        let poll ← parseNum parseI8 line "minpoll" (some value)
        serverOptions line isPool rest { s with minPoll := some poll } ignored
    | .maxPoll =>
      match rest with
      | [] => .error ⟨line, "maxpoll needs a value"⟩
      | value :: rest => do
        let poll ← parseNum parseI8 line "maxpoll" (some value)
        serverOptions line isPool rest { s with maxPoll := some poll } ignored
    | .other name =>
      let ignored := ignored ++ [(line, ignoredOption isPool name)]
      if takesValue name then
        match rest with
        | [] => .ok (s, ignored)
        | _ :: rest => serverOptions line isPool rest s ignored
      else serverOptions line isPool rest s ignored

/-- The update limit of `makestep`: a negative one is always allowed, another is cast. -/
def limitAsU32 (limit : Int) : UInt32 :=
  if limit < 0 then 4294967295 else UInt32.ofNat limit.toNat

variable {F : Type}

/-- One line of the loop of `parse`. -/
def parseLine (parseF64 : String → Option F) (line : Nat) (cfg : Config F) (raw : String) :
    Except ConfigError (Config F) :=
  match directiveOf raw with
  | none => .ok cfg
  | some (directive, args) =>
    match Directive.of directive with
    | .server isPool =>
      match args with
      | [] => .error ⟨line, serverWord isPool ++ " needs a host"⟩
      | host :: options => do
        let (s, ignored) ←
          serverOptions line isPool options ⟨host, isPool, false, none, none⟩ cfg.ignored
        return { cfg with servers := cfg.servers ++ [s], ignored := ignored }
    | .makestep => do
      let threshold ← parseNum parseF64 line "makestep threshold" args.head?
      let limit ← parseNum parseI64 line "makestep limit" args[1]?
      return { cfg with makestep := some (threshold, limitAsU32 limit) }
    | .maxSlewRate => do
      let ppm ← parseNum parseF64 line "maxslewrate" args.head?
      return { cfg with maxSlewPpm := some ppm }
    | .allow => .ok { cfg with allow := cfg.allow ++ [args.head?.getD "all"] }
    | .deny => .ok { cfg with deny := cfg.deny ++ [args.head?.getD "all"] }
    | .other name => .ok { cfg with ignored := cfg.ignored ++ [(line, name)] }

/-- The loop of `parse`. -/
def parseLines (parseF64 : String → Option F) : (line : Nat) → Config F → List String →
    Except ConfigError (Config F)
  | _, cfg, [] => .ok cfg
  | line, cfg, raw :: rest => do
    let cfg ← parseLine parseF64 line cfg raw
    parseLines parseF64 (line + 1) cfg rest

/-- `parse`. -/
def parse (parseF64 : String → Option F) (text : String) : Except ConfigError (Config F) :=
  parseLines parseF64 1 (.empty F) (lines text)

end RustyTime.ConfigFile
