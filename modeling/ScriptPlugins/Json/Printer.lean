import ScriptPlugins.Json.Value

/-!
# JSON printer — the two written forms of a value

The compact form has no blanks; the laid out form puts each member on a line of its own, two
blanks deeper than its object.  An empty array or object is written without a break.
-/

namespace ScriptPlugins.Json

/-! ## 1. Strings -/

/-- A character inside a string: quotes, backslashes and control characters are escaped. -/
def escape (c : Char) : List Char :=
  if c = '"' then ['\\', '"']
  else if c = '\\' then ['\\', '\\']
  else if c = '\n' then ['\\', 'n']
  else if c = '\r' then ['\\', 'r']
  else if c = '\t' then ['\\', 't']
  else if c = '\x08' then ['\\', 'b']
  else if c = '\x0c' then ['\\', 'f']
  else if c.toNat < 0x20 then '\\' :: 'u' :: Text.hexPadded 4 c.toNat
  else [c]

/-- A string in quotes. -/
def quote (s : String) : List Char := '"' :: s.toList.flatMap escape ++ ['"']

/-! ## 2. The compact form -/

mutual

def compact : Json → List Char
  | null => "null".toList
  | bool true => "true".toList
  | bool false => "false".toList
  | number digits => digits.toList
  | text s => quote s
  | array xs => '[' :: compactList xs ++ [']']
  | object ms => '{' :: compactMembers ms ++ ['}']
  | unsound => "null".toList

def compactList : List Json → List Char
  | [] => []
  | [x] => x.compact
  | x :: xs => x.compact ++ ',' :: compactList xs

def compactMembers : List (String × Json) → List Char
  | [] => []
  | [(key, x)] => quote key ++ ':' :: x.compact
  | (key, x) :: ms => quote key ++ ':' :: x.compact ++ ',' :: compactMembers ms

end

/-! ## 3. The laid out form -/

/-- A new line at the given level. -/
def newLine (level : Nat) : List Char := '\n' :: List.replicate (2 * level) ' '

mutual

/-- A value whose first line has already been placed at the given level. -/
def layOut (level : Nat) : Json → List Char
  | array [] => ['[', ']']
  | array (x :: xs) =>
    '[' :: newLine (level + 1) ++ layOutList (level + 1) (x :: xs) ++ newLine level ++ [']']
  | object [] => ['{', '}']
  | object (m :: ms) =>
    '{' :: newLine (level + 1) ++ layOutMembers (level + 1) (m :: ms) ++ newLine level ++ ['}']
  | null => "null".toList
  | bool true => "true".toList
  | bool false => "false".toList
  | number digits => digits.toList
  | text s => quote s
  | unsound => "null".toList

def layOutList (level : Nat) : List Json → List Char
  | [] => []
  | [x] => layOut level x
  | x :: xs => layOut level x ++ ',' :: newLine level ++ layOutList level xs

def layOutMembers (level : Nat) : List (String × Json) → List Char
  | [] => []
  | [(key, x)] => quote key ++ ':' :: ' ' :: layOut level x
  | (key, x) :: ms =>
    quote key ++ ':' :: ' ' :: layOut level x ++ ',' :: newLine level ++ layOutMembers level ms

end

/-- The compact text of a value. -/
def print (j : Json) : String := String.ofList j.compact

/-- The laid out text of a value. -/
def printLaidOut (j : Json) : String := String.ofList (layOut 0 j)

end ScriptPlugins.Json
