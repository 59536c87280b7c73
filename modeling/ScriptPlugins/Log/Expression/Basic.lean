/-!
# Regular expressions — their parts, how deep they go, and whether they can be matched

Texts are matched in a single pass over their bytes, and no tables of scripts are at hand.  So an
expression can be matched only where it asks for nothing that needs such a table, for no byte that
stands for part of a character, and, of the edges of words, for those of ASCII alone.
-/

namespace ScriptPlugins.Log

/-! ## 1. Flags -/

/-- How characters are told apart. -/
structure Flags where
  /-- Whether a letter stands for both of its cases. -/
  ignoresCase : Bool
  /-- Whether classes hold the characters of all scripts, and not of ASCII alone. -/
  unicode : Bool
  deriving DecidableEq, Repr

/-- A change of flags as it is written: the letters of those that are set, and behind a `-` of those
that are taken back. -/
structure FlagChange where
  letters : List Char
  deriving DecidableEq, Repr

namespace FlagChange

/-- What a change makes of a flag. -/
def value (c : FlagChange) (letter : Char) (before : Bool) : Bool :=
  if letter ∈ c.letters.takeWhile (· ≠ '-') then true
  else before && letter ∉ c.letters

/-- The flags behind a change. -/
def apply (c : FlagChange) (f : Flags) : Flags :=
  ⟨c.value 'i' f.ignoresCase, c.value 'u' f.unicode⟩

end FlagChange

/-! ## 2. Classes -/

/-- A character, and whether it is written as a byte. -/
structure Literal where
  char : Char
  isByte : Bool
  deriving DecidableEq, Repr

namespace Literal

/-- Whether a character can be matched.  No table of cases is at hand, and a byte beyond ASCII is
no character. -/
def isMatchable (f : Flags) (l : Literal) : Bool :=
  if f.unicode then !f.ignoresCase else !l.isByte || l.char.toNat < 0x80

end Literal

/-- How the two sides of a class are taken together. -/
inductive SetOperation where
  | intersection
  | difference
  | symmetricDifference
  deriving DecidableEq, Repr

/-- A set of characters in brackets, and what stands in it. -/
inductive CharClass where
  | empty
  | literal (l : Literal)
  | range (first last : Literal)
  /-- A class such as `[:alpha:]`. -/
  | named (negated : Bool) (name : List Char)
  /-- A class such as `\d`; a capital letter stands for all other characters. -/
  | shorthand (letter : Char)
  | bracketed (negated : Bool) (members : CharClass)
  | union (members : List CharClass)
  | combined (op : SetOperation) (left right : CharClass)
  deriving Repr

namespace CharClass

/-- The class with some members. -/
def ofMembers : List CharClass → CharClass
  | [] => empty
  | [c] => c
  | cs => union cs

mutual

/-- How deep brackets, lists and operations are nested. -/
def depth : CharClass → Nat
  | bracketed _ c => c.depth + 1
  | union cs => depthOfAll cs + 1
  | combined _ a b => max a.depth b.depth + 1
  | _ => 0

/-- The depth of the deepest of some classes. -/
def depthOfAll : List CharClass → Nat
  | [] => 0
  | c :: cs => max c.depth (depthOfAll cs)

end

mutual

/-- The members that are written in a class, at any depth. -/
def leaves : CharClass → List CharClass
  | empty => []
  | bracketed _ c => c.leaves
  | union cs => leavesOfAll cs
  | combined _ a b => a.leaves ++ b.leaves
  | c => [c]

/-- The members that are written in some classes. -/
def leavesOfAll : List CharClass → List CharClass
  | [] => []
  | c :: cs => c.leaves ++ leavesOfAll cs

end

/-- Whether a class is a shorthand such as `\d`. -/
def isShorthand : CharClass → Bool
  | shorthand _ => true
  | _ => false

mutual

/-- Whether a class of bytes holds characters only: what is written in it is ASCII, and nothing is
negated, since the bytes beyond ASCII would be let in. -/
def isAscii : CharClass → Bool
  | literal l => l.char.toNat < 0x80
  | range a b => a.char.toNat < 0x80 && b.char.toNat < 0x80
  | named negated _ => !negated
  | shorthand letter => !letter.isUpper
  | bracketed negated c => !negated && c.isAscii
  | union cs => allAscii cs
  | combined _ a b => a.isAscii && b.isAscii
  | empty => true

/-- Whether all of some classes hold characters only. -/
def allAscii : List CharClass → Bool
  | [] => true
  | c :: cs => c.isAscii && allAscii cs

end

/-- Whether a class can be matched. -/
def isMatchable (f : Flags) (c : CharClass) : Bool :=
  if f.unicode then !c.leaves.any isShorthand && !(f.ignoresCase && !c.leaves.isEmpty)
  else c.isAscii

end CharClass

/-! ## 3. Expressions -/

/-- A regular expression. -/
inductive Expression where
  | empty
  | literal (l : Literal)
  /-- Any character of a line. -/
  | dot
  /-- The start or the end of a text or line. -/
  | place
  | wordEdge
  | shorthand (letter : Char)
  | charClass (c : CharClass)
  /-- A change of flags up to the end of the group. -/
  | flags (change : FlagChange)
  | repeated (e : Expression)
  /-- A group, with a change of flags within it. -/
  | group (change : FlagChange) (e : Expression)
  | choice (branches : List Expression)
  | sequence (parts : List Expression)
  deriving Repr

namespace Expression

/-- The expression of some parts, one behind the other. -/
def ofParts : List Expression → Expression
  | [] => empty
  | [e] => e
  | es => sequence es

/-- The expression of some branches. -/
def ofBranches : List Expression → Expression
  | [] => empty
  | [e] => e
  | es => choice es

mutual

/-- How deep expressions and classes are nested. -/
def depth : Expression → Nat
  | charClass c => c.depth
  | repeated e | group _ e => e.depth + 1
  | choice es | sequence es => depthOfAll es + 1
  | _ => 0

/-- The depth of the deepest of some expressions. -/
def depthOfAll : List Expression → Nat
  | [] => 0
  | e :: es => max e.depth (depthOfAll es)

end

mutual

/-- The flags behind an expression, if it can be matched. -/
def flagsBehind? (f : Flags) : Expression → Option Flags
  | empty | place => some f
  | literal l => if l.isMatchable f then some f else none
  | dot => if f.unicode then some f else none
  | wordEdge => if f.unicode then none else some f
  | shorthand letter => if f.unicode || letter.isUpper then none else some f
  | charClass c => if c.isMatchable f then some f else none
  | flags change => some (change.apply f)
  | repeated e => e.flagsBehind? f
  | group change e => (e.flagsBehind? (change.apply f)).map fun _ => f
  | choice es | sequence es => flagsBehindAll? f es

/-- The flags behind expressions that are read one behind the other, if all can be matched. -/
def flagsBehindAll? (f : Flags) : List Expression → Option Flags
  | [] => some f
  | e :: es => (e.flagsBehind? f).bind fun f => flagsBehindAll? f es

end

/-- How deep an expression may go. -/
def depthLimit : Nat := 250

/-- Whether an expression can be matched. -/
def isMatchable (e : Expression) : Bool :=
  e.depth ≤ depthLimit && (e.flagsBehind? ⟨false, true⟩).isSome

end Expression

end ScriptPlugins.Log
