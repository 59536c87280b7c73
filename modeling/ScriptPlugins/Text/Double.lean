import ScriptPlugins.Text.Decimal

/-!
# Doubles — which numerals a double can hold

A double has 53 binary digits and ends below the 1024th power of two.  A numeral is turned into one
either exactly, or from its leading digits: those that fit into 64 bits and the power of ten that
they are scaled by are rounded each on its own, and then their product.  Near the end of the range
the two differ.
-/

namespace ScriptPlugins.Text

/-- A number as it is written: its digits before and behind the point, and the power of ten. -/
structure Numeral where
  whole : List Char
  fraction : List Char
  exponent : Int
  deriving DecidableEq, Repr

namespace Numeral

/-- The numeral that a text without a sign says. -/
def ofText (cs : List Char) : Numeral :=
  let whole := cs.takeWhile Char.isDigit
  let cs := cs.dropWhile Char.isDigit
  let (fraction, cs) :=
    match cs with
    | '.' :: cs => (cs.takeWhile Char.isDigit, cs.dropWhile Char.isDigit)
    | cs => ([], cs)
  let exponent : Int :=
    match cs with
    | _ :: '-' :: ds => -((numeral? 10 ds).getD 0 : Nat)
    | _ :: '+' :: ds => ((numeral? 10 ds).getD 0 : Nat)
    | _ :: ds => ((numeral? 10 ds).getD 0 : Nat)
    | [] => 0
  ⟨whole, fraction, exponent⟩

/-- The least number that rounds to no double: half a unit above the greatest one. -/
def tooLarge : Nat := Nat.pow 2 1024 - Nat.pow 2 970

/-! ## 1. Exact rounding -/

/-- Whether a numeral rounds to a double. -/
def isDouble (n : Numeral) : Bool :=
  let digits := (numeral? 10 (n.whole ++ n.fraction)).getD 0
  let scale := n.exponent - n.fraction.length
  if digits = 0 ∨ scale < -400 - (decimal digits).length then true
  else if scale > 308 then false
  else if scale ≥ 0 then digits * Nat.pow 10 scale.toNat < tooLarge
  else digits < tooLarge * Nat.pow 10 (-scale).toNat

/-! ## 2. Rounding by parts -/

/-- A number rounded to 53 binary digits; a half goes to the even neighbour. -/
def nearest (n : Nat) : Nat :=
  let unit := Nat.pow 2 (Nat.log2 n - 52)
  let below := n / unit
  let rest := 2 * (n % unit)
  let up := if rest = unit then below % 2 = 1 else unit < rest
  (if up then below + 1 else below) * unit

/-- A number with digits written behind it, as long as 64 bits hold it, and the digits left over. -/
def appendDigits (n : Nat) : List Char → Nat × List Char
  | [] => (n, [])
  | c :: cs =>
    let longer := 10 * n + (digitValue? 10 c).getD 0
    if longer < Nat.pow 2 64 then appendDigits longer cs else (n, c :: cs)

/-- Whether a numeral that is rounded by parts is a double. -/
def isDoubleByParts (n : Numeral) : Bool :=
  let (digits, unread) := appendDigits 0 n.whole
  let (digits, dropped) := appendDigits digits n.fraction
  let scale := n.exponent + unread.length - (n.fraction.length - dropped.length : Nat)
  if digits = 0 ∨ scale < 0 then true
  else if scale > 308 then false
  else nearest digits * nearest (Nat.pow 10 scale.toNat) < tooLarge

end Numeral

end ScriptPlugins.Text
