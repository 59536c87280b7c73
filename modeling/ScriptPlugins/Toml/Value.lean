/-!
# TOML values — what a TOML text says

A table remembers how it came to be, since that decides whether it may be reopened: under a header
of its own, only on the way to a header below it, by a dotted key, or inline and complete.

The form of a number is one question, whether it can be held another, which comes up only where the
number is looked at.  A number that is well formed and too large is `unsound`.
-/

namespace ScriptPlugins

/-- How a table came to be. -/
inductive TableOrigin where
  | header
  | implied
  | dotted
  | inlined
  deriving DecidableEq, Repr

inductive Toml where
  | text (s : String)
  | integer (n : Int)
  | float
  | bool (b : Bool)
  | moment
  | unsound
  | array (elements : List Toml)
  | table (origin : TableOrigin) (members : List (String × Toml))
  /-- The tables of an array that grows header by header, the latest one first. -/
  | tables (rest : List Toml)
  deriving Repr, Inhabited

namespace Toml

/-- The members of a table. -/
abbrev Members := List (String × Toml)

/-- The value of a key. -/
def Members.get? (ms : Members) (key : String) : Option Toml := ms.lookup key

/-- Members with another value for a key that is there. -/
def Members.replace (ms : Members) (key : String) (v : Toml) : Members :=
  ms.map fun (k, w) => if k = key then (k, v) else (k, w)

/-- How refusals of a text that is no TOML, or not of the wanted shape, are told: the reason is
not told apart. -/
def refusal : String := "<toml error>"

/-! ## 1. Nesting and soundness -/

mutual

/-- How deeply arrays and inlined tables nest in a value. -/
def nesting : Toml → Nat
  | array xs => nestingList xs + 1
  | table .inlined ms => nestingMembers ms + 1
  | table _ ms => nestingMembers ms
  | _ => 0

def nestingList : List Toml → Nat
  | [] => 0
  | x :: xs => max x.nesting (nestingList xs)

def nestingMembers : List (String × Toml) → Nat
  | [] => 0
  | (_, x) :: ms => max x.nesting (nestingMembers ms)

end

/-- How deeply a value may nest, and how many parts a key may have. -/
def nestingLimit : Nat := 80

mutual

/-- Whether every number of a value can be held. -/
def sound : Toml → Bool
  | unsound => false
  | array xs => soundList xs
  | table _ ms => soundMembers ms
  | tables xs => soundList xs
  | _ => true

def soundList : List Toml → Bool
  | [] => true
  | x :: xs => x.sound && soundList xs

def soundMembers : List (String × Toml) → Bool
  | [] => true
  | (_, x) :: ms => x.sound && soundMembers ms

end

/-- The values of some keys.  The other keys are passed over, but their numbers have to be held. -/
def Members.select (names : List String) (ms : Members) : Option (List (Option Toml)) :=
  if ms.all fun (key, v) => key ∈ names || v.sound then some (names.map ms.get?) else none

/-! ## 2. Building tables -/

/-- Changes the table that a path leads to.  Missing tables on the way are made, and of an array of
tables it is the latest one.  An inlined table is complete, and a dotted key may not reach into a
table that has a header. -/
def change (byKey : Bool) (f : TableOrigin → Members → Option (TableOrigin × Members)) :
    List String → TableOrigin → Members → Option (TableOrigin × Members)
  | [], origin, ms => f origin ms
  | key :: path, origin, ms =>
    match ms.get? key with
    | none => do
      let (o, inner) ← change byKey f path (if byKey then .dotted else .implied) []
      return (origin, ms ++ [(key, table o inner)])
    | some (table o inner) =>
      if o = .inlined ∨ (byKey ∧ o = .header) then none
      else do
        let (o, inner) ← change byKey f path o inner
        return (origin, ms.replace key (table o inner))
    | some (tables (table o inner :: rest)) => do
      let (o, inner) ← change byKey f path o inner
      return (origin, ms.replace key (tables (table o inner :: rest)))
    | some _ => none

/-- Sets a key, which may be dotted, below a table.  No key is set twice, and dotted keys add only
to tables that dotted keys have made. -/
def setKey (path : List String) (key : String) (v : Toml) (origin : TableOrigin) (ms : Members) :
    Option (TableOrigin × Members) :=
  change true
    (fun o ms =>
      -- The table at hand is not dotted; any other one that the key leads to has to be.
      if path.isEmpty = (o == .dotted) then none
      else if (ms.get? key).isSome then none
      else some (o, ms ++ [(key, v)]))
    path origin ms

/-- Opens a table under a header.  It may have been implied before, but not opened. -/
def openTable (key : String) (origin : TableOrigin) (ms : Members) :
    Option (TableOrigin × Members) :=
  match ms.get? key with
  | none => some (origin, ms ++ [(key, table .header [])])
  | some (table .implied inner) => some (origin, ms.replace key (table .header inner))
  | some _ => none

/-- Opens one more table of an array of tables. -/
def openElement (key : String) (origin : TableOrigin) (ms : Members) :
    Option (TableOrigin × Members) :=
  match ms.get? key with
  | none => some (origin, ms ++ [(key, tables [table .header []])])
  | some (tables rest) => some (origin, ms.replace key (tables (table .header [] :: rest)))
  | some _ => none

end Toml

end ScriptPlugins
