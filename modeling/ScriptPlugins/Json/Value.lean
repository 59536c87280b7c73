import ScriptPlugins.Text.Double

/-!
# JSON values — what a JSON text says

Members of an object keep their order and may repeat; a number keeps its digits.  A text is
*sound* where a value of it is kept: its numbers are within the range of a double and its strings
are Unicode.  Where a value is passed over, only its form counts, so a string that is no Unicode
is held as `unsound` and not refused at once.
-/

namespace ScriptPlugins

inductive Json where
  | null
  | bool (b : Bool)
  | number (digits : String)
  | text (s : String)
  | array (elements : List Json)
  | object (members : List (String × Json))
  | unsound
  deriving Repr, Inhabited

namespace Json

/-! ## 1. Numbers -/

/-- A natural number as a JSON value. -/
def ofNat (n : Nat) : Json := number (String.ofList (Text.decimal n))

/-- Whether a number lies within the range of a double; it is rounded by parts. -/
def inRange (digits : String) : Bool :=
  let cs := digits.toList
  (Text.Numeral.ofText (if cs.head? = some '-' then cs.tail else cs)).isDoubleByParts

/-! ## 2. Depth and soundness -/

mutual

/-- How deeply arrays and objects nest in a value. -/
def depth : Json → Nat
  | array xs => depthList xs + 1
  | object ms => depthMembers ms + 1
  | _ => 0

def depthList : List Json → Nat
  | [] => 0
  | x :: xs => max x.depth (depthList xs)

def depthMembers : List (String × Json) → Nat
  | [] => 0
  | (_, x) :: ms => max x.depth (depthMembers ms)

end

mutual

/-- Whether every string and number of a value can be kept. -/
def sound : Json → Bool
  | unsound => false
  | number digits => inRange digits
  | array xs => soundList xs
  | object ms => soundMembers ms
  | _ => true

def soundList : List Json → Bool
  | [] => true
  | x :: xs => x.sound && soundList xs

def soundMembers : List (String × Json) → Bool
  | [] => true
  | (_, x) :: ms => x.sound && soundMembers ms

end

/-- The greatest depth at which a kept value may nest. -/
def depthLimit : Nat := 127

/-- Whether a value that stands below `outer` arrays and objects can be kept. -/
def keepable (outer : Nat) (j : Json) : Bool := j.sound && outer + j.depth ≤ depthLimit

end Json

end ScriptPlugins
