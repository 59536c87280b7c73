import ScriptPlugins.Text.Decimal

/-!
# TOML strings — how a text is written as a value

There are four forms: basic or literal, on one line or on several.  The plainest form that needs no
escapes is taken; if there is none, everything that needs an escape gets one.
-/

namespace ScriptPlugins.Toml

/-- The length of the longest run of a character. -/
def longestRun (c : Char) (cs : List Char) : Nat := go 0 0 cs
where
  go (longest current : Nat) : List Char → Nat
    | [] => max longest current
    | d :: ds => if d = c then go longest (current + 1) ds else go (max longest current) 0 ds

/-- Control characters other than tabs and line feeds: they always need an escape. -/
def isControl (c : Char) : Bool := (c.toNat < 0x20 ∧ c ≠ '\t' ∧ c ≠ '\n') ∨ c.toNat = 0x7F

/-- The form of a string. -/
inductive StringForm where
  | basic
  | literal
  | longBasic
  | longLiteral
  deriving DecidableEq, Repr

/-- The form in which a text is written. -/
def formOf (cs : List Char) : StringForm :=
  let controls := cs.any isControl
  let backslash := '\\' ∈ cs
  let lines := '\n' ∈ cs
  let doubles := longestRun '"' cs
  let singles := longestRun '\'' cs
  if ¬controls ∧ ¬backslash ∧ doubles = 0 ∧ ¬lines then .basic
  else if ¬controls ∧ singles = 0 ∧ ¬lines then .literal
  -- Three quotes in a row would end a long string.
  else if ¬controls ∧ ¬backslash ∧ doubles ≤ 2 then .longBasic
  else if ¬controls ∧ singles ≤ 2 then .longLiteral
  else if lines then .longBasic
  else .basic

/-- The escape of a character in a basic string, if it needs one; `long` tells whether line feeds
may stand in it. -/
def escape? (long : Bool) (c : Char) : Option (List Char) :=
  if c = '\x08' then some ['\\', 'b']
  else if c = '\t' then some ['\\', 't']
  else if c = '\n' then (if long then none else some ['\\', 'n'])
  else if c = '\x0c' then some ['\\', 'f']
  else if c = '\r' then some ['\\', 'r']
  else if c = '\\' then some ['\\', '\\']
  else if isControl c then
    some ('\\' :: 'u' :: (Text.hexPadded 4 c.toNat).map Char.toUpper)
  else none

/-- The inside of a basic string.  Of the quotes in a row no more than `most` stand without an
escape; `run` of them stand just before. -/
def escapeAll (long : Bool) (most : Nat) : Nat → List Char → List Char
  | _, [] => []
  | run, c :: cs =>
    if c = '"' then
      if run < most then '"' :: escapeAll long most (run + 1) cs
      else '\\' :: '"' :: escapeAll long most 0 cs
    else
      match escape? long c with
      | some e => e ++ escapeAll long most 0 cs
      | none => c :: escapeAll long most 0 cs

/-- A text as a TOML value. -/
def quote (s : String) : String :=
  let cs := s.toList
  let lead := if '\n' ∈ cs then ['\n'] else []
  String.ofList <|
    match formOf cs with
    | .basic => '"' :: escapeAll false 0 0 cs ++ ['"']
    | .literal => '\'' :: cs ++ ['\'']
    | .longBasic => ['"', '"', '"'] ++ lead ++ escapeAll true 2 0 cs ++ ['"', '"', '"']
    | .longLiteral => ['\'', '\'', '\''] ++ lead ++ cs ++ ['\'', '\'', '\'']

end ScriptPlugins.Toml
