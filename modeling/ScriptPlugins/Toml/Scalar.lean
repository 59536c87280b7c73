import ScriptPlugins.Text.Affix
import ScriptPlugins.Text.Double
import ScriptPlugins.Time.Instant
import ScriptPlugins.Toml.Value

/-!
# TOML scalars — strings, numbers, truth values and moments

A number is accepted for its form.  Whether it can be held shows in its value: an integer within
128 bits, a float within the range of a double, or `unsound`.
-/

namespace ScriptPlugins.Toml

open Text

/-! ## 1. Strings -/

/-- What may stand in a comment, and in strings unless it has a meaning there. -/
def isPrintable (c : Char) : Bool := c = '\t' || (0x20 ≤ c.toNat && c.toNat ≠ 0x7F)

/-- The character of a code point. -/
def codePoint? (n : Nat) : Option Char := if n.isValidChar then some (Char.ofNat n) else none

/-- The character that an escape of one letter stands for. -/
def unescape : Char → Option Char
  | 'b' => some '\x08'
  | 't' => some '\t'
  | 'n' => some '\n'
  | 'f' => some '\x0c'
  | 'r' => some '\r'
  | 'e' => some '\x1b'
  | '"' => some '"'
  | '\\' => some '\\'
  | _ => none

/-- The escape behind a backslash, and what follows it. -/
def readEscape : List Char → Option (Char × List Char)
  | 'x' :: a :: b :: cs => do
    return (← numeral? 16 [a, b] >>= codePoint?, cs)
  | 'u' :: a :: b :: c :: d :: cs => do
    return (← numeral? 16 [a, b, c, d] >>= codePoint?, cs)
  | 'U' :: cs =>
    if 8 ≤ cs.length then do
      return (← numeral? 16 (cs.take 8) >>= codePoint?, cs.drop 8)
    else none
  | e :: cs => (unescape e).map (·, cs)
  | [] => none

/-- A basic string behind its quote, on one line. -/
def readBasic : Nat → List Char → Option (List Char × List Char)
  | 0, _ => none
  | fuel + 1, cs =>
    match cs with
    | '"' :: cs => some ([], cs)
    | '\\' :: cs => do
      let (c, cs) ← readEscape cs
      let (v, rest) ← readBasic fuel cs
      return (c :: v, rest)
    | c :: cs =>
      if isPrintable c then (readBasic fuel cs).map fun (v, rest) => (c :: v, rest) else none
    | [] => none

/-- A literal string behind its quote, on one line. -/
def readLiteral : List Char → Option (List Char × List Char)
  | '\'' :: cs => some ([], cs)
  | c :: cs => if isPrintable c then (readLiteral cs).map fun (v, rest) => (c :: v, rest) else none
  | [] => none

/-- A line break at the start of a text, taken off. -/
def dropBreak : List Char → List Char
  | '\n' :: cs => cs
  | '\r' :: '\n' :: cs => cs
  | cs => cs

def isSpace (c : Char) : Bool := c = ' ' || c = '\t'

/-- Blanks and line breaks at the start of a text, taken off; a carriage return stands only before
a line feed. -/
def skipLines : List Char → List Char
  | '\r' :: '\n' :: cs => skipLines cs
  | '\n' :: cs => skipLines cs
  | c :: cs => if isSpace c then skipLines cs else c :: cs
  | [] => []

/-- What follows a backslash that joins lines: a line break with blanks around it. -/
def joinLines? (cs : List Char) : Option (List Char) :=
  match cs.dropWhile isSpace with
  | '\n' :: cs => some (skipLines cs)
  | '\r' :: '\n' :: cs => some (skipLines cs)
  | _ => none

/-- The end of a long string: up to two quotes may stand before the three that close it. -/
def closeLong (quote : Char) (cs : List Char) : Option (List Char × List Char) :=
  let run := (cs.takeWhile (· = quote)).length
  if run < 3 then none
  else some (List.replicate (min run 5 - 3) quote, cs.drop (min run 5))

/-- A long basic string behind its quotes. -/
def readLongBasic : Nat → List Char → Option (List Char × List Char)
  | 0, _ => none
  | fuel + 1, cs =>
    match closeLong '"' cs with
    | some r => some r
    | none =>
      match cs with
      | '\\' :: cs =>
        match joinLines? cs with
        | some cs => readLongBasic fuel cs
        | none => do
          let (c, cs) ← readEscape cs
          let (v, rest) ← readLongBasic fuel cs
          return (c :: v, rest)
      | '\r' :: '\n' :: cs =>
        (readLongBasic fuel cs).map fun (v, rest) => ('\r' :: '\n' :: v, rest)
      | c :: cs =>
        if isPrintable c ∨ c = '\n' then
          (readLongBasic fuel cs).map fun (v, rest) => (c :: v, rest)
        else none
      | [] => none

/-- A long literal string behind its quotes. -/
def readLongLiteral : Nat → List Char → Option (List Char × List Char)
  | 0, _ => none
  | fuel + 1, cs =>
    match closeLong '\'' cs with
    | some r => some r
    | none =>
      match cs with
      | '\r' :: '\n' :: cs =>
        (readLongLiteral fuel cs).map fun (v, rest) => ('\r' :: '\n' :: v, rest)
      | c :: cs =>
        if isPrintable c ∨ c = '\n' then
          (readLongLiteral fuel cs).map fun (v, rest) => (c :: v, rest)
        else none
      | [] => none

/-- A string of one line, if one begins here. -/
def readShortText : List Char → Option (List Char × List Char)
  | '"' :: cs => readBasic (cs.length + 1) cs
  | '\'' :: cs => readLiteral cs
  | _ => none

/-- A string of any form, if one begins here. -/
def readText : List Char → Option (List Char × List Char)
  | '"' :: '"' :: '"' :: cs => readLongBasic (cs.length + 1) (dropBreak cs)
  | '\'' :: '\'' :: '\'' :: cs => readLongLiteral (cs.length + 1) (dropBreak cs)
  | cs => readShortText cs

/-! ## 2. Numbers -/

/-- Whether every `_` has a digit before and behind it.  `before` says whether a digit stands in
front of the text. -/
def joinsDigits (isDigit : Char → Bool) : Bool → List Char → Bool
  | _, [] => true
  | before, c :: cs =>
    if c = '_' then before && cs.head?.any isDigit && joinsDigits isDigit false cs
    else joinsDigits isDigit (isDigit c) cs

/-- The integers that can be held. -/
def holdsInteger (n : Int) : Bool := -(Nat.pow 2 127 : Nat) ≤ n && n < (Nat.pow 2 128 : Nat)

/-- The integer that digits stand for, if they are digits and it can be held. -/
def integerOf (base : Nat) (negative : Bool) (digits : List Char) : Toml :=
  match digits.filter (· ≠ '_') with
  | [] => unsound
  | ds =>
    match (numeral? base ds).map fun n => if negative then -(n : Int) else n with
    | some n => if holdsInteger n then integer n else unsound
    | none => unsound

/-- An integer behind the letter of its base, whose digits may be missing. -/
def based? (base : Nat) (ds : List Char) : Option Toml :=
  let isDigit := fun c => (digitValue? base c).isSome
  if (ds.all fun c => c = '_' || isDigit c) && joinsDigits isDigit false ds then
    some (integerOf base false ds)
  else none

/-- A run of digits with `_` between them, at least one, and what follows it. -/
def digitRun? (cs : List Char) : Option (List Char × List Char) :=
  let run := cs.takeWhile fun c => c = '_' || c.isDigit
  if run.any Char.isDigit then some (run, cs.drop run.length) else none

/-- A fraction behind its point, if there is one. -/
def fraction? : List Char → Option (List Char × List Char)
  | '.' :: cs => digitRun? cs
  | cs => some ([], cs)

/-- An exponent behind its letter and sign, if there is one. -/
def exponent? : List Char → Option (List Char × List Char)
  | 'e' :: s :: cs | 'E' :: s :: cs => digitRun? (if s = '+' ∨ s = '-' then cs else s :: cs)
  | cs => some ([], cs)

/-- Whether a text has the form of a float without a sign: a whole part, which has no leading zero,
and a fraction, an exponent or both. -/
def isFloat (cs : List Char) : Bool :=
  match digitRun? cs with
  | none => false
  | some (whole, rest) =>
    (cs.head? ≠ some '0' || (whole.filter Char.isDigit).length = 1) &&
      match fraction? rest >>= (exponent? ·.2) with
      | some (_, []) => true
      | _ => false

/-- A number behind its sign, if it has one.  An integer with `_` in it may go on with what is no
digit; it is `unsound` then. -/
def decimal? (negative : Bool) (cs : List Char) : Option Toml :=
  if cs = "inf".toList ∨ cs = "nan".toList then some float
  else if cs.any (· ∈ ['.', 'e', 'E']) then
    if isFloat cs && joinsDigits Char.isDigit false cs then
      if (Numeral.ofText (cs.filter (· ≠ '_'))).isDouble then some float else some unsound
    else none
  else
    match cs.takeWhile Char.isDigit, cs.dropWhile Char.isDigit with
    | [], [] => none
    | ['0'], [] => some (integer 0)
    | '0' :: _, _ => none
    | _, [] => some (integerOf 10 negative cs)
    | _, '_' :: _ =>
      if joinsDigits (fun c => (digitValue? 16 c).isSome) false cs then
        some (integerOf 10 negative cs)
      else none
    | _, _ => none

/-- A number: an integer in one of four bases, or a float. -/
def number? : List Char → Option Toml
  | '0' :: 'x' :: ds => based? 16 ds
  | '0' :: 'o' :: ds => based? 8 ds
  | '0' :: 'b' :: ds => based? 2 ds
  | '-' :: cs => decimal? true cs
  | '+' :: cs => decimal? false cs
  | cs => decimal? false cs

/-! ## 3. Moments -/

/-- Two digits up to a limit. -/
def twoDigits (lo hi : Nat) : List Char → Option (Nat × List Char)
  | a :: b :: cs => ((numeral? 10 [a, b]).filter fun n => lo ≤ n ∧ n ≤ hi).map (·, cs)
  | _ => none

/-- The rest of a text behind a mark. -/
def behind (marks : List Char) : List Char → Option (List Char)
  | c :: cs => if c ∈ marks then some cs else none
  | [] => none

def readDate (cs : List Char) : Option (List Char) := do
  let (hi, cs) ← twoDigits 0 99 cs
  let (lo, cs) ← twoDigits 0 99 cs
  let cs ← behind ['-'] cs
  let (month, cs) ← twoDigits 1 12 cs
  let cs ← behind ['-'] cs
  let (_, cs) ← twoDigits 1 (Instant.daysInMonth (hi * 100 + lo : Nat) month) cs
  return cs

/-- A time of day, which may end with its minutes; a fraction needs seconds. -/
def readTime (cs : List Char) : Option (List Char) := do
  let (_, cs) ← twoDigits 0 23 cs
  let cs ← behind [':'] cs
  let (_, cs) ← twoDigits 0 59 cs
  match cs with
  | ':' :: cs => do
    let (_, cs) ← twoDigits 0 60 cs
    match cs with
    | '.' :: cs =>
      let rest := cs.dropWhile Char.isDigit
      if rest.length < cs.length then some rest else none
    | cs => some cs
  | cs => some cs

def isOffset : List Char → Bool
  | ['Z'] | ['z'] => true
  | s :: cs =>
    (s = '+' || s = '-') &&
      match twoDigits 0 23 cs >>= (behind [':'] ·.2) >>= twoDigits 0 59 with
      | some (_, []) => true
      | _ => false
  | [] => false

/-- Whether a text is a date, a time of day, or both with or without an offset. -/
def isMoment (cs : List Char) : Bool :=
  match readDate cs with
  | some [] => true
  | some cs =>
    match behind ['T', 't', ' '] cs >>= readTime with
    | some rest => rest = [] || isOffset rest
    | none => false
  | none => readTime cs = some []

/-! ## 4. Words -/

/-- What ends a scalar that is no string. -/
def isWordEnd (c : Char) : Bool :=
  c ∈ ['=', ',', '[', ']', '{', '}', ' ', '\t', '#', '\r', '\n']

/-- A scalar that is no string, up to its end. -/
def wordOf (cs : List Char) : List Char := cs.takeWhile (!isWordEnd ·)

/-- The text of a scalar: a date may have one blank before its time of day. -/
def takeWord (cs : List Char) : List Char × List Char :=
  let word := wordOf cs
  let rest := cs.drop word.length
  match rest with
  | ' ' :: c :: cs =>
    if c.isDigit ∧ readDate word = some [] then
      let time := wordOf (c :: cs)
      (word ++ ' ' :: time, (c :: cs).drop time.length)
    else (word, rest)
  | _ => (word, rest)

/-- The value of a scalar that is no string. -/
def word? (cs : List Char) : Option Toml :=
  if cs = "true".toList then some (bool true)
  else if cs = "false".toList then some (bool false)
  else if isMoment cs then some moment
  else number? cs

end ScriptPlugins.Toml
