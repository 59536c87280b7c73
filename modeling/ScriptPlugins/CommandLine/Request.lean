import ScriptPlugins.CommandLine.Grammar
import ScriptPlugins.Text.Decimal

/-!
# Requests — what a command line asks for

Scripts are compiled, one of them is applied, or the cache is looked after.  Options on the command
line go before variables of the environment.
-/

namespace ScriptPlugins.CommandLine

/-! ## 1. Requests -/

/-- Options that every command has. -/
structure Shared where
  config : Option String
  buildDir : Option String
  deriving DecidableEq, Repr

structure CompileRequest where
  shared : Shared
  scriptsDir : Option String
  extension : Option String
  workers : Option Nat
  deriving DecidableEq, Repr

structure ApplyRequest where
  scriptId : String
  shared : Shared
  targetName : Option String
  knownPlugins : Option (List String)
  deriving DecidableEq, Repr

/-- What is done with the cache. -/
inductive CacheAction where
  | list (verbose : Bool)
  | stats
  | clean (className : Option String) (all : Bool)
  deriving DecidableEq, Repr

structure CacheRequest where
  shared : Shared
  action : CacheAction
  deriving DecidableEq, Repr

inductive Request where
  | compile (r : CompileRequest)
  | apply (r : ApplyRequest)
  | cache (r : CacheRequest)
  deriving DecidableEq, Repr

/-! ## 2. Options -/

/-- The greatest number that an option takes. -/
def countLimit : Nat := 0xFFFFFFFFFFFFFFFF

/-- A number in plain digits, perhaps behind a plus sign. -/
def count? (s : String) : Option Nat :=
  let digits :=
    match s.toList with
    | '+' :: cs => cs
    | cs => cs
  if digits = [] then none else (Text.numeral? 10 digits).filter (· ≤ countLimit)

/-- Any text is valid. -/
def anyText : Arity := .value fun _ => true

def helpOption : OptionRule := ⟨"help", some 'h', none, .stop .help⟩

def sharedOptions : List OptionRule :=
  [⟨"config", some 'c', some "PRESCRIPT_CONFIG", anyText⟩,
    ⟨"build-dir", none, some "PRESCRIPT_BUILD_DIR", anyText⟩, helpOption]

/-- A level without subcommands. -/
def leaf (options : List OptionRule) (argument : Option ArgumentRule) : Level :=
  ⟨options, argument, [], fun _ => false⟩

def compileLevel : Level :=
  leaf (sharedOptions ++
    [⟨"scripts-dir", none, some "PRESCRIPT_SCRIPTS_DIR", anyText⟩,
      ⟨"extension", none, some "PRESCRIPT_EXTENSION", anyText⟩,
      ⟨"workers", none, some "PRESCRIPT_WORKERS", .value fun s => (count? s).isSome⟩]) none

def applyLevel : Level :=
  leaf (sharedOptions ++
    [⟨"target-name", none, none, anyText⟩,
      ⟨"known-plugin", none, some "PRESCRIPT_KNOWN_PLUGINS", .list⟩]) (some ⟨"script", true⟩)

def cacheActions : List String := ["list", "stats", "clean"]

def commands : List String := ["compile", "apply", "cache"]

/-- Whether there is help for an action on the cache. -/
def hasCacheHelp : List String → Bool
  | [] => true
  | [name] => name = "help" ∨ name ∈ cacheActions
  | _ => false

/-- Whether there is help for a command. -/
def hasHelp : List String → Bool
  | [] => true
  | "cache" :: names => hasCacheHelp names
  | [name] => name = "help" ∨ name ∈ commands
  | _ => false

def cacheLevel : Level := ⟨sharedOptions, none, cacheActions, hasCacheHelp⟩

def topLevel : Level :=
  ⟨[helpOption, ⟨"version", some 'V', none, .stop .version⟩], none, commands, hasHelp⟩

/-! ## 3. Reading requests -/

/-- The value of an option that has one. -/
def Given.value? (g : Given) (name : String) : Option String := g.lookup name >>= List.head?

def Given.has (g : Given) (name : String) : Bool := (g.lookup name).isSome

def Given.shared (g : Given) : Shared := ⟨g.value? "config", g.value? "build-dir"⟩

/-- Reads a level that has no subcommands. -/
def readLeaf (l : Level) (env : List (String × String)) (words : List String) :
    Except Refusal Given := do
  return (← l.read env words fun _ _ => (.error .invalidSubcommand : Except Refusal Unit)).1

def readAction (env : List (String × String)) (name : String) (words : List String) :
    Except Refusal CacheAction :=
  match name with
  | "list" => do
    let verbose : OptionRule := ⟨"verbose", some 'v', none, .flag⟩
    return .list ((← readLeaf (leaf [helpOption, verbose] none) env words).has "verbose")
  | "stats" => do
    discard <| readLeaf (leaf [helpOption] none) env words
    return .stats
  | _ => do
    let all : OptionRule := ⟨"all", none, none, .flag⟩
    let g ← readLeaf (leaf [helpOption, all] (some ⟨"class", false⟩)) env words
    return .clean (g.value? "class") (g.has "all")

def readCommand (env : List (String × String)) (name : String) (words : List String) :
    Except Refusal Request :=
  match name with
  | "compile" => do
    let g ← readLeaf compileLevel env words
    return .compile ⟨g.shared, g.value? "scripts-dir", g.value? "extension",
      g.value? "workers" >>= count?⟩
  | "apply" => do
    let g ← readLeaf applyLevel env words
    return .apply ⟨(g.value? "script").getD "", g.shared, g.value? "target-name",
      g.lookup "known-plugin"⟩
  | _ => do
    match ← cacheLevel.read env words (readAction env) with
    | (g, some action) => return .cache ⟨g.shared, action⟩
    | (_, none) => throw .missingSubcommand

/-- The request that the words of a command line make. -/
def read (env : List (String × String)) (words : List String) : Except Refusal Request := do
  match ← topLevel.read env words (readCommand env) with
  | (_, some request) => return request
  | (_, none) => throw .missingSubcommand

/-- What is printed when the version is asked for. -/
def versionText : String := "prescript 0.1.0\n"

end ScriptPlugins.CommandLine
