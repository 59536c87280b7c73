import ScriptPlugins.Json.Value

/-!
# JSON reader — from a text to the value it says

The reader accepts exactly the texts of the JSON grammar, with blanks around the value.  Whether
the value can be kept is a later question (`Json.keepable`).
-/

namespace ScriptPlugins.Json

/-! ## 1. Blanks and strings -/

def isBlank (c : Char) : Bool := c = ' ' || c = '\t' || c = '\n' || c = '\r'

def skipBlank (cs : List Char) : List Char := cs.dropWhile isBlank

/-- A unit of a string: a character, or the code of an escape `\uXXXX`. -/
inductive TextUnit where
  | char (c : Char)
  | code (n : Nat)
  deriving DecidableEq, Repr

/-- The character that a backslash and `c` stand for. -/
def unescape : Char → Option Char
  | '"' => some '"'
  | '\\' => some '\\'
  | '/' => some '/'
  | 'b' => some '\x08'
  | 'f' => some '\x0c'
  | 'n' => some '\n'
  | 'r' => some '\r'
  | 't' => some '\t'
  | _ => none

/-- The units of a string behind its opening quote, and the text behind its closing quote. -/
def readUnits : List Char → Option (List TextUnit × List Char)
  | '"' :: cs => some ([], cs)
  | '\\' :: 'u' :: a :: b :: c :: d :: cs => do
    let n ← Text.numeral? 16 [a, b, c, d]
    let (us, rest) ← readUnits cs
    return (.code n :: us, rest)
  | '\\' :: e :: cs => do
    let c ← unescape e
    let (us, rest) ← readUnits cs
    return (.char c :: us, rest)
  | c :: cs =>
    if c.toNat < 0x20 then none
    else (readUnits cs).map fun (us, rest) => (.char c :: us, rest)
  | [] => none

def isHighSurrogate (n : Nat) : Bool := 0xD800 ≤ n && n < 0xDC00

def isLowSurrogate (n : Nat) : Bool := 0xDC00 ≤ n && n < 0xE000

/-- The characters that units stand for.  Two codes make one character if they are a surrogate
pair; a surrogate that stands alone makes none. -/
def decodeUnits : List TextUnit → Option (List Char)
  | [] => some []
  | .char c :: us => (decodeUnits us).map (c :: ·)
  | .code n :: .code m :: us =>
    if isHighSurrogate n then
      -- A high surrogate needs a low one right behind it.
      if isLowSurrogate m then
        (decodeUnits us).map
          (Char.ofNat (0x10000 + (n - 0xD800) * 0x400 + (m - 0xDC00)) :: ·)
      else none
    else if isLowSurrogate n then none
    else (decodeUnits (.code m :: us)).map (Char.ofNat n :: ·)
  | .code n :: us =>
    if isHighSurrogate n || isLowSurrogate n then none
    else (decodeUnits us).map (Char.ofNat n :: ·)

/-- A string behind its opening quote; its value is `none` if it is no Unicode. -/
def readText (cs : List Char) : Option (Option String × List Char) :=
  (readUnits cs).map fun (us, rest) => ((decodeUnits us).map String.ofList, rest)

/-! ## 2. Numbers -/

/-- At least one digit. -/
def readDigits (cs : List Char) : Option (List Char × List Char) :=
  match cs.span Char.isDigit with
  | ([], _) => none
  | (ds, rest) => some (ds, rest)

/-- The whole part of a number, which has no leading zero. -/
def readWhole (cs : List Char) : Option (List Char × List Char) :=
  match readDigits cs with
  | some ('0' :: _ :: _, _) => none
  | r => r

/-- The fraction of a number with its point, if there is one. -/
def readFraction : List Char → Option (List Char × List Char)
  | '.' :: cs => (readDigits cs).map fun (ds, rest) => ('.' :: ds, rest)
  | cs => some ([], cs)

/-- The exponent of a number with its mark, if there is one. -/
def readExponent : List Char → Option (List Char × List Char)
  | e :: cs =>
    if e = 'e' ∨ e = 'E' then
      match cs with
      | s :: ds =>
        if s = '+' ∨ s = '-' then (readDigits ds).map fun (ds, rest) => (e :: s :: ds, rest)
        else (readDigits (s :: ds)).map fun (ds, rest) => (e :: ds, rest)
      | [] => none
    else some ([], e :: cs)
  | [] => some ([], [])

def readUnsigned (cs : List Char) : Option (List Char × List Char) := do
  let (whole, cs) ← readWhole cs
  let (fraction, cs) ← readFraction cs
  let (exponent, cs) ← readExponent cs
  return (whole ++ fraction ++ exponent, cs)

def readNumber : List Char → Option (List Char × List Char)
  | '-' :: cs => (readUnsigned cs).map fun (ds, rest) => ('-' :: ds, rest)
  | cs => readUnsigned cs

/-! ## 3. Values

The fuel bounds how often the readers call each other; `read` gives more than a text can need. -/

/-- An object of the members read, unless one of its keys is no Unicode. -/
def ofMembers (ms : List (Option String × Json)) : Json :=
  match ms.mapM fun (key, x) => key.map (·, x) with
  | some ms => object ms
  | none => unsound

mutual

def readValue : Nat → List Char → Option (Json × List Char)
  | 0, _ => none
  | fuel + 1, cs =>
    match skipBlank cs with
    | 'n' :: 'u' :: 'l' :: 'l' :: cs => some (null, cs)
    | 't' :: 'r' :: 'u' :: 'e' :: cs => some (bool true, cs)
    | 'f' :: 'a' :: 'l' :: 's' :: 'e' :: cs => some (bool false, cs)
    | '"' :: cs => (readText cs).map fun (s, rest) => (s.elim unsound text, rest)
    | '[' :: cs =>
      match skipBlank cs with
      | ']' :: cs => some (array [], cs)
      | cs => (readElements fuel cs).map fun (xs, rest) => (array xs, rest)
    | '{' :: cs =>
      match skipBlank cs with
      | '}' :: cs => some (object [], cs)
      | cs => (readMembers fuel cs).map fun (ms, rest) => (ofMembers ms, rest)
    | cs => (readNumber cs).map fun (ds, rest) => (number (String.ofList ds), rest)

/-- The elements of an array, at least one, up to its closing bracket. -/
def readElements : Nat → List Char → Option (List Json × List Char)
  | 0, _ => none
  | fuel + 1, cs => do
    let (x, cs) ← readValue fuel cs
    match skipBlank cs with
    | ',' :: cs => (readElements fuel cs).map fun (xs, rest) => (x :: xs, rest)
    | ']' :: cs => some ([x], cs)
    | _ => none

/-- The members of an object, at least one, up to its closing brace. -/
def readMembers : Nat → List Char → Option (List (Option String × Json) × List Char)
  | 0, _ => none
  | fuel + 1, cs =>
    match skipBlank cs with
    | '"' :: cs => do
      let (key, cs) ← readText cs
      match skipBlank cs with
      | ':' :: cs => do
        let (x, cs) ← readValue fuel cs
        match skipBlank cs with
        | ',' :: cs => (readMembers fuel cs).map fun (ms, rest) => ((key, x) :: ms, rest)
        | '}' :: cs => some ([(key, x)], cs)
        | _ => none
      | _ => none
    | _ => none

end

/-- The value of a text, with nothing but blanks behind it. -/
def read (s : String) : Option Json :=
  let cs := s.toList
  match readValue (2 * cs.length + 2) cs with
  | some (j, rest) => if skipBlank rest = [] then some j else none
  | none => none

end ScriptPlugins.Json
