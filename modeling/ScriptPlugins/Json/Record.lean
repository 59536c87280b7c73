import ScriptPlugins.Json.Value

/-!
# Records — values with named fields, as JSON says them

A record is written as an object of its fields, in any order, or as an array of them in theirs.
An object may hold further members, which are passed over, but no field twice; an array holds no
more than the fields.  Optional fields may be left out, and `null` leaves them out too.
-/

namespace ScriptPlugins.Json

/-- How refusals of a text that is no JSON, or not of the wanted shape, are told: the reason is
not told apart. -/
def refusal : String := "<json error>"

/-! ## 1. Single values -/

def asText : Json → Option String
  | text s => some s
  | _ => none

def asBool : Json → Option Bool
  | bool b => some b
  | _ => none

/-- A natural number up to a limit, written in plain digits. -/
def asNat (limit : Nat) : Json → Option Nat
  | number digits => (Text.numeral? 10 digits.toList).filter (· ≤ limit)
  | _ => none

/-- One of several words; a word may also stand as the only key of an object, with `null`. -/
def asWord : Json → Option String
  | text s => some s
  | object [(key, null)] => some key
  | _ => none

/-- A value that may be left out. -/
def optional {α : Type} (decode : Json → Option α) : Option Json → Option (Option α)
  | none | some null => some none
  | some j => (decode j).map some

/-- A value that must not be left out. -/
def required {α : Type} (decode : Json → Option α) (j : Option Json) : Option α := j >>= decode

/-- A value with a default. -/
def defaulted {α : Type} (default : α) (decode : Json → Option α) : Option Json → Option α
  | none => some default
  | some j => decode j

def asList {α : Type} (decode : Json → Option α) : Json → Option (List α)
  | array xs => xs.mapM decode
  | _ => none

/-! ## 2. Fields -/

/-- The member of that key: `some none` if there is none, nothing if there is more than one. -/
def member? (key : String) (ms : List (String × Json)) : Option (Option Json) :=
  match ms.filter (·.1 = key) with
  | [] => some none
  | [(_, x)] => some (some x)
  | _ => none

/-- The fields of a record, in the order of their names. -/
def fields (names : List String) : Json → Option (List (Option Json))
  | object ms => names.mapM (member? · ms)
  | array xs =>
    if xs.length ≤ names.length then
      some (xs.map some ++ List.replicate (names.length - xs.length) none)
    else none
  | _ => none

end ScriptPlugins.Json
