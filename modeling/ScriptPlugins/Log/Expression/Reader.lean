import ScriptPlugins.Log.Expression.Basic
import ScriptPlugins.Text.Affix
import ScriptPlugins.Text.Alphanumeric
import ScriptPlugins.Text.Blank
import ScriptPlugins.Text.Decimal

/-!
# Reading regular expressions

Under the flag `x` a text is *spaced*: blanks and comments between its parts do not count.

Within a filter an expression holds no `,` and no closing brace behind an opening one, so nothing
that needs them is ever complete: no counted repetition, and no character or class named in braces.
-/

namespace ScriptPlugins.Log

namespace Expression

/-! ## 1. Blanks and comments -/

/-- What follows blanks and comments; `inside` says whether the text begins inside a comment. -/
def skipComments (inside : Bool) : List Char → List Char
  | [] => []
  | c :: cs =>
    if inside then skipComments (c ≠ '\n') cs
    else if Text.isBlank c then skipComments false cs
    else if c = '#' then skipComments true cs
    else c :: cs

/-- What follows the blanks and comments of a spaced text. -/
def skip (spaced : Bool) (cs : List Char) : List Char :=
  if spaced then skipComments false cs else cs

theorem length_skipComments_le (inside : Bool) (cs : List Char) :
    (skipComments inside cs).length ≤ cs.length := by
  induction cs generalizing inside with
  | nil => simp [skipComments]
  | cons c cs ih =>
    have hInside := ih (c ≠ '\n')
    have hBlank := ih false
    have hMark := ih true
    simp only [skipComments]
    repeat' split
    all_goals simp only [List.length_cons]; omega

theorem length_skip_le (spaced : Bool) (cs : List Char) :
    (skip spaced cs).length ≤ cs.length := by
  unfold skip
  split
  · exact length_skipComments_le false cs
  · exact Nat.le_refl _

/-- The next character as far as a range looks ahead for it: behind blanks, and in a comment for the
first character that is no blank. -/
def peek? (spaced : Bool) (cs : List Char) : Option Char :=
  if spaced then
    match cs.dropWhile Text.isBlank with
    | '#' :: cs => (cs.dropWhile Text.isBlank).head?
    | cs => cs.head?
  else cs.head?

/-! ## 2. Characters -/

/-- So many hexadecimal digits. -/
def readDigits (spaced : Bool) : Nat → List Char → Option (List Char × List Char)
  | 0, cs => some ([], cs)
  | n + 1, cs =>
    match skip spaced cs with
    | [] => none
    | d :: cs => (readDigits spaced n cs).map fun (ds, rest) => (d :: ds, rest)

/-- The character with a code of so many hexadecimal digits.  Two digits are a byte. -/
def readCode (spaced : Bool) (width : Nat) (cs : List Char) :
    Option (Expression × List Char) := do
  let (digits, rest) ← readDigits spaced width cs
  let code ← Text.numeral? 16 digits
  if code.isValidChar then some (.literal ⟨Char.ofNat code, width = 2⟩, rest) else none

/-- The character that an escape of one letter stands for; a mark of ASCII stands for itself. -/
def unescape? : Char → Option Char
  | 'a' => some '\x07'
  | 'f' => some '\x0c'
  | 'n' => some '\n'
  | 'r' => some '\r'
  | 't' => some '\t'
  | 'v' => some '\x0b'
  | c => if c.isAlphanum || 0x7F < c.toNat then none else some c

/-- What an escape stands for, and what follows it.  Classes by property such as `\pL` need tables
that are not at hand. -/
def readEscape (spaced : Bool) : List Char → Option (Expression × List Char)
  | [] => none
  | 'x' :: cs => readCode spaced 2 cs
  | 'u' :: cs => readCode spaced 4 cs
  | 'U' :: cs => readCode spaced 8 cs
  | c :: cs =>
    if c ∈ ['d', 'D', 's', 'S', 'w', 'W'] then some (.shorthand c, cs)
    else if c ∈ ['A', 'z'] then some (.place, cs)
    else if c ∈ ['b', 'B', '<', '>'] then some (.wordEdge, cs)
    else (unescape? c).map fun c => (.literal ⟨c, false⟩, cs)

/-! ## 3. Classes -/

/-- The names of classes that stand between colons. -/
def classNames : List String :=
  ["alnum", "alpha", "ascii", "blank", "cntrl", "digit", "graph", "lower", "print", "punct",
    "space", "upper", "word", "xdigit"]

/-- A class such as `[:alpha:]` behind its bracket, and what follows it. -/
def readNamed : List Char → Option (CharClass × List Char)
  | ':' :: cs =>
    let negated := cs.head? = some '^'
    let cs := if negated then cs.tail else cs
    let name := cs.takeWhile (· ≠ ':')
    if String.ofList name ∈ classNames then
      (Text.withoutStart? [':', ']'] (cs.drop name.length)).map (.named negated name, ·)
    else none
  | _ => none

/-- How many `-` stand at the start of a text, and what follows them. -/
def leadingDashes (spaced : Bool) (cs : List Char) : Nat × List Char :=
  match cs with
  | '-' :: rest =>
    let (n, rest) := leadingDashes spaced (skip spaced rest)
    (n + 1, rest)
  | cs => (0, cs)
termination_by cs.length
decreasing_by
  have := length_skip_le spaced rest
  simp only [List.length_cons]
  omega

/-- The start of a class behind its bracket: whether it is negated, and the members that mean
something else further on.  A bracket that comes first closes nothing. -/
def openClass (spaced : Bool) (cs : List Char) : Bool × List CharClass × List Char :=
  let cs := skip spaced cs
  let negated := cs.head? = some '^'
  let cs := if negated then skip spaced cs.tail else cs
  match leadingDashes spaced cs with
  | (0, ']' :: cs) => (negated, [.literal ⟨']', false⟩], cs)
  | (n, cs) => (negated, List.replicate n (.literal ⟨'-', false⟩), cs)

/-- A character or shorthand of a class. -/
def readMember (spaced : Bool) : List Char → Option (CharClass × List Char)
  | [] => none
  | '\\' :: cs =>
    match readEscape spaced cs with
    | some (.literal l, rest) => some (.literal l, rest)
    | some (.shorthand letter, rest) => some (.shorthand letter, rest)
    | _ => none
  | c :: cs => some (.literal ⟨c, false⟩, cs)

/-- A member of a class, or a range of characters. -/
def readRange (spaced : Bool) (cs : List Char) : Option (CharClass × List Char) := do
  let (first, rest) ← readMember spaced cs
  match skip spaced rest with
  | '-' :: rest =>
    if peek? spaced rest ∈ [some ']', some '-'] then return (first, '-' :: rest)
    else
      let (last, rest) ← readMember spaced (skip spaced rest)
      match first, last with
      | .literal a, .literal b => if a.char ≤ b.char then some (.range a b, rest) else none
      | _, _ => none
  | rest => return (first, rest)

/-- A class of which one side may be known that still has to be taken together with the members. -/
def closeSide (side : Option (CharClass × SetOperation)) (members : List CharClass) : CharClass :=
  match side with
  | none => .ofMembers members.reverse
  | some (left, op) => .combined op left (.ofMembers members.reverse)

/-- The members up to the bracket that closes their class, and what follows it. -/
def readMembers (spaced : Bool) : Nat → Option (CharClass × SetOperation) → List CharClass →
    List Char → Option (CharClass × List Char)
  | 0, _, _, _ => none
  | fuel + 1, side, members, cs =>
    match skip spaced cs with
    | [] => none
    | ']' :: cs => some (closeSide side members, cs)
    | '[' :: cs =>
      match readNamed cs with
      | some (c, cs) => readMembers spaced fuel side (c :: members) cs
      | none => do
        let (negated, opening, cs) := openClass spaced cs
        let (inner, cs) ← readMembers spaced fuel none opening cs
        readMembers spaced fuel side (.bracketed negated inner :: members) cs
    | '&' :: '&' :: cs =>
      readMembers spaced fuel (some (closeSide side members, .intersection)) [] cs
    | '-' :: '-' :: cs =>
      readMembers spaced fuel (some (closeSide side members, .difference)) [] cs
    | '~' :: '~' :: cs =>
      readMembers spaced fuel (some (closeSide side members, .symmetricDifference)) [] cs
    | cs => do
      let (c, cs) ← readRange spaced cs
      readMembers spaced fuel side (c :: members) cs

/-- A class behind its bracket, and what follows it. -/
def readClass (spaced : Bool) (cs : List Char) : Option (CharClass × List Char) := do
  let (negated, opening, rest) := openClass spaced cs
  let (members, rest) ← readMembers spaced (cs.length + 1) none opening rest
  return (.bracketed negated members, rest)

/-! ## 4. Groups -/

/-- What a parenthesis opens: a group that may have a name, or a change of flags. -/
inductive Opening where
  | group (name : Option (List Char)) (change : FlagChange)
  | flags (change : FlagChange)
  deriving DecidableEq, Repr

/-- Whether a text can be the name of a group. -/
def isGroupName : List Char → Bool
  | [] => false
  | c :: cs =>
    (c = '_' || Text.isAlphabetic c) &&
      cs.all fun c => c ∈ ['_', '.', '[', ']'] || Text.isAlphanumeric c

/-- The name of a group, up to its bracket. -/
def readName (cs : List Char) : Option (Opening × List Char) :=
  let name := cs.takeWhile (· ≠ '>')
  match cs.drop name.length with
  | _ :: rest => if isGroupName name then some (.group (some name) ⟨[]⟩, rest) else none
  | [] => none

/-- Whether letters are a change of flags: each one known, none twice, and no `-` at the end. -/
def isFlagChange (letters : List Char) : Bool :=
  letters.all (· ∈ ['i', 'm', 's', 'U', 'u', 'R', 'x', '-']) && letters.Nodup &&
    letters.getLast? ≠ some '-'

/-- What stands behind the parenthesis that opens a group. -/
def readOpening : List Char → Option (Opening × List Char)
  | '?' :: 'P' :: '<' :: cs => readName cs
  | '?' :: '<' :: cs => readName cs
  | '?' :: cs =>
    let letters := cs.takeWhile fun c => c ≠ ':' && c ≠ ')'
    if !isFlagChange letters then none
    else
      match cs.drop letters.length with
      | ':' :: rest => some (.group none ⟨letters⟩, rest)
      | _ :: rest => if letters = [] then none else some (.flags ⟨letters⟩, rest)
      | [] => none
  | cs => some (.group none ⟨[]⟩, cs)

/-! ## 5. Expressions -/

/-- What is known where an expression goes on. -/
structure Context where
  spaced : Bool
  /-- The names that groups have been given. -/
  names : List (List Char)
  deriving DecidableEq, Repr

/-- What may be repeated: anything but a change of flags. -/
def isOperand : Expression → Bool
  | flags _ => false
  | _ => true

/-- The expression of the branches and parts that have been read, the latest first. -/
def close (branches parts : List Expression) : Expression :=
  ofBranches (ofParts parts.reverse :: branches).reverse

/-- The expression up to the end of its group, the names given until then, and what follows. -/
def readGroup : Nat → Context → List Expression → List Expression → List Char →
    Option (Expression × List (List Char) × List Char)
  | 0, _, _, _, _ => none
  | fuel + 1, ctx, branches, parts, cs =>
    match skip ctx.spaced cs with
    | [] => some (close branches parts, ctx.names, [])
    | ')' :: cs => some (close branches parts, ctx.names, ')' :: cs)
    | '|' :: cs => readGroup fuel ctx (ofParts parts.reverse :: branches) [] cs
    | '(' :: cs => do
      match ← readOpening (skip ctx.spaced cs) with
      | (.flags change, cs) =>
        readGroup fuel { ctx with spaced := change.value 'x' ctx.spaced } branches
          (.flags change :: parts) cs
      | (.group name change, cs) =>
        if name.any (· ∈ ctx.names) then none
        else
          let inside := ⟨change.value 'x' ctx.spaced, name.toList ++ ctx.names⟩
          match ← readGroup fuel inside [] [] cs with
          | (e, names, ')' :: cs) =>
            readGroup fuel { ctx with names } branches (.group change e :: parts) cs
          | _ => none
    | '{' :: _ => none
    | '[' :: cs => do
      let (c, cs) ← readClass ctx.spaced cs
      readGroup fuel ctx branches (.charClass c :: parts) cs
    | '\\' :: cs => do
      let (e, cs) ← readEscape ctx.spaced cs
      readGroup fuel ctx branches (e :: parts) cs
    | c :: cs =>
      if c ∈ ['?', '*', '+'] then
        match parts with
        | [] => none
        | e :: parts =>
          -- A question mark behind it asks for the shortest match.
          if e.isOperand then
            readGroup fuel ctx branches (.repeated e :: parts)
              (if cs.head? = some '?' then cs.tail else cs)
          else none
      else
        let e :=
          if c = '.' then dot else if c ∈ ['^', '$'] then place else literal ⟨c, false⟩
        readGroup fuel ctx branches (e :: parts) cs

/-- The expression that a text is. -/
def ofText? (cs : List Char) : Option Expression :=
  match readGroup (cs.length + 1) ⟨false, []⟩ [] [] cs with
  | some (e, _, []) => some e
  | _ => none

end Expression

end ScriptPlugins.Log
