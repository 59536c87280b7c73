import ScriptPlugins.Toml.Scalar

/-!
# TOML reader — from a text to the table it says

A text is a run of lines: keys with values, table headers, comments.  The reader accepts TOML 1.1.
-/

namespace ScriptPlugins.Toml

/-! ## 1. Blanks, comments, ends of lines -/

def skipSpace (cs : List Char) : List Char := cs.dropWhile isSpace

/-- A comment, if one begins here, taken off. -/
def skipComment : List Char → List Char
  | '#' :: cs => cs.dropWhile isPrintable
  | cs => cs

/-- The end of a line or of the text, with blanks and a comment before it. -/
def endOfLine (cs : List Char) : Option (List Char) :=
  match skipComment (skipSpace cs) with
  | [] => some []
  | '\n' :: cs => some cs
  | '\r' :: '\n' :: cs => some cs
  | _ => none

/-- Blanks, comments and line breaks, as they stand between the elements of an array or of an
inlined table, taken off. -/
def skipFiller (inComment : Bool) : List Char → List Char
  | '\n' :: cs => skipFiller false cs
  | '\r' :: '\n' :: cs => skipFiller false cs
  | c :: cs =>
    if inComment then if isPrintable c then skipFiller true cs else c :: cs
    else if c = '#' then skipFiller true cs
    else if isSpace c then skipFiller false cs
    else c :: cs
  | [] => []

/-! ## 2. Keys -/

def isBareKeyPart (c : Char) : Bool := c.isAlphanum || c = '_' || c = '-'

/-- One part of a key: bare or quoted. -/
def readKeyPart (cs : List Char) : Option (String × List Char) :=
  match readShortText cs with
  | some (v, rest) => some (String.ofList v, rest)
  | none =>
    let name := cs.takeWhile isBareKeyPart
    if name = [] then none else some (String.ofList name, cs.drop name.length)

/-- The parts of a key behind the first one; the fuel is one more than their greatest number. -/
def readKeyRest : Nat → List Char → Option (List String × List Char)
  | 0, _ => none
  | fuel + 1, cs =>
    match skipSpace cs with
    | '.' :: cs => do
      let (part, cs) ← readKeyPart (skipSpace cs)
      let (parts, rest) ← readKeyRest fuel cs
      return (part :: parts, rest)
    | cs => some ([], cs)

/-- A key, dotted or not, with the blanks behind it. -/
def readKey (cs : List Char) : Option (List String × List Char) := do
  let (part, cs) ← readKeyPart (skipSpace cs)
  let (parts, rest) ← readKeyRest nestingLimit cs
  return (part :: parts, rest)

/-- The path of a key and its last part. -/
def splitKey (parts : List String) : List String × String :=
  (parts.dropLast, parts.getLast?.getD "")

/-! ## 3. Values

The fuel bounds how often the readers call each other; `read` gives more than a text can need. -/

mutual

def readValue : Nat → List Char → Option (Toml × List Char)
  | 0, _ => none
  | fuel + 1, cs =>
    match readText cs with
    | some (v, rest) => some (text (String.ofList v), rest)
    | none =>
      match cs with
      | '[' :: cs =>
        match skipFiller false cs with
        | ']' :: cs => some (array [], cs)
        | cs => (readElements fuel cs).map fun (xs, rest) => (array xs, rest)
      | '{' :: cs =>
        match skipFiller false cs with
        | '}' :: cs => some (table .inlined [], cs)
        | cs => (readPairs fuel [] cs).map fun (ms, rest) => (table .inlined ms, rest)
      | cs =>
        let (word, rest) := takeWord cs
        (word? word).map (·, rest)

/-- The elements of an array, at least one, up to its closing bracket. -/
def readElements : Nat → List Char → Option (List Toml × List Char)
  | 0, _ => none
  | fuel + 1, cs => do
    let (x, cs) ← readValue fuel cs
    match skipFiller false cs with
    | ']' :: cs => some ([x], cs)
    | ',' :: cs =>
      match skipFiller false cs with
      | ']' :: cs => some ([x], cs)
      | cs => (readElements fuel cs).map fun (xs, rest) => (x :: xs, rest)
    | _ => none

/-- The members of an inlined table, at least one, up to its closing brace. -/
def readPairs : Nat → Members → List Char → Option (Members × List Char)
  | 0, _, _ => none
  | fuel + 1, ms, cs => do
    let (parts, cs) ← readKey cs
    match skipFiller false cs with
    | '=' :: cs => do
      let (v, cs) ← readValue fuel (skipFiller false cs)
      let (path, key) := splitKey parts
      let (_, ms) ← setKey path key v .header ms
      match skipFiller false cs with
      | '}' :: cs => some (ms, cs)
      | ',' :: cs =>
        match skipFiller false cs with
        | '}' :: cs => some (ms, cs)
        | cs => readPairs fuel ms cs
      | _ => none
    | _ => none

end

/-! ## 4. Texts -/

/-- A text read so far: its table, and the path of the header that is open. -/
structure Draft where
  members : Members
  current : List String

/-- The text so far, with the table that a line has made of it. -/
def Draft.of (current : List String) (r : Option (TableOrigin × Members)) : Option Draft :=
  r.map fun (_, members) => ⟨members, current⟩

/-- One line of a text, and what follows it. -/
def readLine (d : Draft) (cs : List Char) : Option (Draft × List Char) :=
  match skipSpace cs with
  | '[' :: '[' :: cs => do
    let (parts, cs) ← readKey cs
    match cs with
    | ']' :: ']' :: cs =>
      let (path, key) := splitKey parts
      let d ← Draft.of parts (change false (openElement key) path .header d.members)
      return (d, ← endOfLine cs)
    | _ => none
  | '[' :: cs => do
    let (parts, cs) ← readKey cs
    match cs with
    | ']' :: cs =>
      let (path, key) := splitKey parts
      let d ← Draft.of parts (change false (openTable key) path .header d.members)
      return (d, ← endOfLine cs)
    | _ => none
  | cs =>
    match endOfLine cs with
    | some rest => some (d, rest)
    | none => do
      let (parts, cs) ← readKey cs
      match cs with
      | '=' :: cs => do
        let cs := skipSpace cs
        let (v, cs) ← readValue (2 * cs.length + 2) cs
        if nestingLimit < v.nesting then none
        else do
          let (path, key) := splitKey parts
          let d ← Draft.of d.current
            (change false (setKey path key v) d.current .header d.members)
          return (d, ← endOfLine cs)
      | _ => none

/-- All lines of a text. -/
def readLines : Nat → Draft → List Char → Option Draft
  | _, d, [] => some d
  | 0, _, _ => none
  | fuel + 1, d, cs => do
    let (d, rest) ← readLine d cs
    readLines fuel d rest

/-- The members of the table that a text says; a byte order mark may lead it. -/
def read (s : String) : Option Members :=
  let cs :=
    match s.toList with
    | '\ufeff' :: cs => cs
    | cs => cs
  (readLines (cs.length + 1) ⟨[], []⟩ cs).map Draft.members

end ScriptPlugins.Toml
