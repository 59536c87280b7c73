import ScriptPlugins.Text.Affix

/-!
# Command line grammar — options, arguments and subcommands

The words of a command line are read one by one.  An option waits for its value, which may also be
attached to it, and is settled when the next option or argument begins.  A word that names a
subcommand ends the reading of its level.  Behind `--` every word is an argument.
-/

namespace ScriptPlugins.CommandLine

/-! ## 1. Rules -/

/-- Why a command line is not carried out. -/
inductive Refusal where
  | invalidSubcommand
  | unknownArgument
  | invalidValue
  | valueValidation
  | tooManyValues
  | missingRequiredArgument
  | missingSubcommand
  | argumentConflict
  /-- Help is shown because nothing was asked for. -/
  | helpOnMissing
  | help
  | version
  deriving DecidableEq, Repr

/-- The exit code: to ask for help or for the version is no mistake. -/
def Refusal.code : Refusal → Nat
  | help | version => 0
  | _ => 2

/-- What an option takes. -/
inductive Arity where
  | flag
  /-- One value, which has to be valid. -/
  | value (valid : String → Bool)
  /-- Values with commas between them; the option may be repeated. -/
  | list
  /-- Nothing: the option ends the reading. -/
  | stop (r : Refusal)

/-- An option; a variable of the environment may stand in for it. -/
structure OptionRule where
  name : String
  short : Option Char
  standIn : Option String
  arity : Arity

/-- The argument of a level. -/
structure ArgumentRule where
  name : String
  required : Bool

/-- What may be written at one level of a command line. -/
structure Level where
  options : List OptionRule
  argument : Option ArgumentRule
  subcommands : List String
  /-- Whether there is help for the subcommands of that path. -/
  hasHelp : List String → Bool

/-- The values given so far, by the names of options and arguments. -/
abbrev Given := List (String × List String)

/-- How far a level has been read. -/
structure Reading where
  given : Given
  /-- The option whose value is still to be settled. -/
  pending : Option (OptionRule × List String)
  /-- Whether `--` has been read. -/
  trailing : Bool

def Reading.start : Reading := ⟨[], none, false⟩

/-! ## 2. Settling options -/

/-- The parts of a text between commas. -/
def splitCommas (s : String) : List String :=
  (Text.splitOn (· = ',') s.toList).map String.ofList

/-- The values that a list already has. -/
def Given.listed (g : Given) (name : String) : List String := (g.lookup name).getD []

/-- What is given once an option has its values. -/
def OptionRule.settle (o : OptionRule) (values : List String) (g : Given) :
    Except Refusal Given :=
  let isGiven := (g.lookup o.name).isSome
  match o.arity with
  | .stop r => .error r
  | .flag => if isGiven then .error .argumentConflict else .ok (g ++ [(o.name, [])])
  | .value valid =>
    if isGiven then .error .argumentConflict
    else if values.all valid then .ok (g ++ [(o.name, values)])
    else .error .valueValidation
  | .list =>
    .ok (g.filter (·.1 ≠ o.name) ++ [(o.name, g.listed o.name ++ values.flatMap splitCommas)])

/-- Settles the option that waits, if one does; it must have got its value. -/
def Reading.settled (r : Reading) : Except Refusal Given :=
  match r.pending with
  | none => .ok r.given
  | some (_, []) => .error .invalidValue
  | some (o, values) => o.settle values r.given

/-- Whether an option still waits for its value. -/
def Reading.isWaiting (r : Reading) : Bool :=
  match r.pending with
  | some (_, []) => true
  | _ => false

/-- Goes on with an option and the value that is attached to it, if one is. -/
def Reading.takeOption (r : Reading) (o : OptionRule) (attached : Option String) :
    Except Refusal Reading := do
  match o.arity, attached with
  | .value _, none | .list, none => return ⟨← r.settled, some (o, []), r.trailing⟩
  | .value _, some v | .list, some v => return ⟨← o.settle [v] (← r.settled), none, r.trailing⟩
  | .flag, some _ | .stop _, some _ => throw .tooManyValues
  | .flag, none | .stop _, none => return ⟨← o.settle [] (← r.settled), none, r.trailing⟩

/-! ## 3. Reading words -/

/-- A long option: its name and what follows a `=`. -/
def splitEquals (cs : List Char) : String × Option String :=
  let name := cs.takeWhile (· ≠ '=')
  match cs.dropWhile (· ≠ '=') with
  | [] => (String.ofList name, none)
  | _ :: value => (String.ofList name, some (String.ofList value))

/-- The value that is attached to a short option; a `=` in front is left out. -/
def attachedValue : List Char → Option String
  | [] => none
  | '=' :: cs => some (String.ofList cs)
  | cs => some (String.ofList cs)

/-- Short options in one word: flags, of which the last may be an option with its value. -/
def Level.takeShort (l : Level) : List Char → Reading → Except Refusal Reading
  | [], r => .ok r
  | c :: cs, r =>
    match l.options.find? (·.short = some c) with
    | none => .error .unknownArgument
    | some o =>
      match o.arity with
      | .value _ | .list => r.takeOption o (attachedValue cs)
      | .flag | .stop _ =>
        match r.takeOption o none with
        | .error e => .error e
        | .ok r => l.takeShort cs r

/-- A word that is no option. -/
def Level.takeArgument (l : Level) (word : String) (r : Reading) : Except Refusal Reading :=
  match l.argument.filter fun a => (r.given.lookup a.name).isNone with
  | some a => do return ⟨(← r.settled) ++ [(a.name, [word])], none, r.trailing⟩
  | none =>
    let namesSubcommand := r.trailing ∧ (word = "help" ∨ word ∈ l.subcommands)
    .error (if l.subcommands = [] ∨ namesSubcommand then .unknownArgument
      else .invalidSubcommand)

/-- A word that is no subcommand. -/
def Level.takeWord (l : Level) (word : String) (r : Reading) : Except Refusal Reading :=
  if r.trailing then l.takeArgument word r
  else
    match word.toList with
    | ['-', '-'] => .ok { r with trailing := true }
    | '-' :: '-' :: cs =>
      let (name, attached) := splitEquals cs
      match l.options.find? (·.name = name) with
      | some o => r.takeOption o attached
      | none => .error .unknownArgument
    | '-' :: c :: cs => l.takeShort (c :: cs) r
    | _ =>
      match r.pending with
      | some (o, []) => .ok { r with pending := some (o, [word]) }
      | _ => l.takeArgument word r

/-- Reads the words of a level, up to a subcommand with the words behind it. -/
def Level.scan (l : Level) :
    List String → Reading → Except Refusal (Reading × Option (String × List String))
  | [], r => .ok (r, none)
  | word :: words, r =>
    -- An option that waits for its value takes the word, even the name of a subcommand.
    if !r.trailing && !r.isWaiting && !l.subcommands.isEmpty && word = "help" then
      .error (if l.hasHelp words then .help else .invalidSubcommand)
    else if !r.trailing && !r.isWaiting && l.subcommands.contains word then
      .ok (r, some (word, words))
    else
      match l.takeWord word r with
      | .error e => .error e
      | .ok r => l.scan words r

/-! ## 4. Levels -/

/-- What is given once the environment has stood in for missing options. -/
def fromEnvironment (env : List (String × String)) : List OptionRule → Given → Except Refusal Given
  | [], g => .ok g
  | o :: os, g =>
    match if (g.lookup o.name).isSome then none else o.standIn >>= (env.lookup ·) with
    | none => fromEnvironment env os g
    | some value => do fromEnvironment env os (← o.settle [value] g)

/-- Checks that nothing is missing at a level. -/
def Level.check (l : Level) (hasSubcommand : Bool) (g : Given) : Except Refusal Unit :=
  if !hasSubcommand && !l.subcommands.isEmpty then
    -- A variable of the environment counts as something that was given.
    .error (if g.isEmpty then .helpOnMissing else .missingSubcommand)
  else
    match l.argument with
    | some a =>
      if a.required && (g.lookup a.name).isNone then .error .missingRequiredArgument else .ok ()
    | none => .ok ()

/-- Reads a level and then, with `inner`, its subcommand. -/
def Level.read {α : Type} (l : Level) (env : List (String × String)) (words : List String)
    (inner : String → List String → Except Refusal α) : Except Refusal (Given × Option α) := do
  let (r, sub) ← l.scan words .start
  -- The subcommand is read first: its refusals go before those of the options in front of it.
  let answer ←
    match sub with
    | none => pure none
    | some (name, words) => some <$> inner name words
  let g ← fromEnvironment env l.options (← r.settled)
  l.check sub.isSome g
  return (g, answer)

end ScriptPlugins.CommandLine
