/-!
# Decimal and hexadecimal text

Natural numbers as the program writes and reads them: plain digits, digits with leading zeros, an
amount in thousandths with two places, and hexadecimal digits.
-/

namespace ScriptPlugins.Text

/-! ## 1. Digits -/

/-- The value of a digit, in either case, below the base. -/
def digitValue? (base : Nat) (c : Char) : Option Nat :=
  let value :=
    if '0' ≤ c ∧ c ≤ '9' then some (c.toNat - '0'.toNat)
    else if 'a' ≤ c ∧ c ≤ 'z' then some (c.toNat - 'a'.toNat + 10)
    else if 'A' ≤ c ∧ c ≤ 'Z' then some (c.toNat - 'A'.toNat + 10)
    else none
  value.filter (· < base)

/-- The number that a run of digits stands for; `none` if one of them is no digit. -/
def numeral? (base : Nat) (cs : List Char) : Option Nat :=
  cs.foldlM (fun n c => (digitValue? base c).map (base * n + ·)) 0

/-- A number in plain decimal digits. -/
def decimal (n : Nat) : List Char := Nat.toDigits 10 n

/-- A number in decimal digits, filled with zeros to a width. -/
def padded (width n : Nat) : List Char :=
  List.replicate (width - (decimal n).length) '0' ++ decimal n

/-- A number in lower-case hexadecimal digits, filled with zeros to a width. -/
def hexPadded (width n : Nat) : List Char :=
  let ds := Nat.toDigits 16 n
  List.replicate (width - ds.length) '0' ++ ds

/-! ## 2. Amounts with two places -/

/-- By how much `n` thousandths are scaled to have 53 binary digits before the point. -/
def scaleOf (n : Nat) : Nat :=
  let k := 62 - Nat.log2 n
  if Nat.pow 2 53 * 1000 ≤ n * Nat.pow 2 k then Nat.pow 2 (k - 1) else Nat.pow 2 k

/-- Whether `n` thousandths, of which five are left over, go up to the next hundredth.  The amount
is held with 53 binary digits; if that makes it larger or smaller, so it goes, and if not, it goes
to the even neighbour. -/
def halfGoesUp (n : Nat) : Bool :=
  let r := n * scaleOf n % 1000
  if r = 0 then n / 10 % 2 = 1 else 500 < r

/-- `n` thousandths as an amount with two places, rounded to the nearest. -/
def thousandths (n : Nat) : List Char :=
  -- Only a half can go either way.
  let up := if n % 10 = 5 then halfGoesUp n else 5 < n % 10
  let hundredths := if up then n / 10 + 1 else n / 10
  decimal (hundredths / 100) ++ '.' :: padded 2 (hundredths % 100)

end ScriptPlugins.Text
