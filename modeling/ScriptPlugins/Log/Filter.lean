import ScriptPlugins.Log.Criterion
import ScriptPlugins.Log.Event
import ScriptPlugins.Text.Affix
import ScriptPlugins.Text.Alphanumeric
import ScriptPlugins.Text.Blank
import ScriptPlugins.Text.Bytes
import ScriptPlugins.Text.Decimal

/-!
# Log filters — which events are shown

A filter is a list of directives.  A directive may be for the components that begin with its
target, and for the events that have its field; of those that fit an event the most specific one
decides.  What a directive asks for within spans shows nothing, since there are none.

The blanks around a directive do not count for its form, but its parts stand as many bytes behind
the start of the whole text as they stand behind the blanks.  So behind blanks no level is found,
and the names and values that are asked for are shifted.
-/

namespace ScriptPlugins.Log

/-- What is shown of some events: the level and all graver ones, or nothing. -/
structure Directive where
  /-- The beginning of the names of the components; empty for all. -/
  target : String
  /-- The field that the events have to have. -/
  field : Option String
  level : Option Level
  deriving DecidableEq, Repr

namespace Directive

/-! ## 1. Reading directives -/

/-- The level that a word or number says; nothing is shown at level zero. -/
def levelOf? (word : String) : Option (Option Level) :=
  let digits :=
    match word.toList with
    | '+' :: cs => cs
    | cs => cs
  let number := if digits = [] then none else Text.numeral? 10 digits
  match number, word.toLower with
  | some 0, _ | none, "off" => some none
  | some 1, _ | none, "error" => some (some .error)
  | some 2, _ | none, "warn" => some (some .warn)
  | some 3, _ | none, "info" => some (some .info)
  | some 4, _ | none, "debug" => some (some .debug)
  | some 5, _ | none, "trace" => some (some .trace)
  | _, _ => none

/-- A stretch of a text, between two places in bytes. -/
structure Stretch where
  start : Nat
  stop : Nat
  deriving DecidableEq, Repr

/-- The part of a text in a stretch, unless an end falls inside a character. -/
def Stretch.of? (s : Stretch) (cs : List Char) : Option (List Char) :=
  (Text.dropBytes? s.start cs).bind (Text.takeBytes? (s.stop - s.start))

/-- Where the parts of a directive such as `target[span{field=value}]=level` stand. -/
structure Clause where
  target : Option Stretch
  /-- Whether there is a span in the brackets. -/
  inSpan : Bool
  field : Option Stretch
  /-- Where the level begins, behind its equals sign. -/
  level : Option Nat
  deriving DecidableEq, Repr

/-- The form of a directive. -/
inductive Form where
  /-- A level or a target, and nothing else. -/
  | word
  | clause (c : Clause)
  deriving DecidableEq, Repr

/-- What a directive may begin with, unless it begins with a bracket. -/
def isStart (c : Char) : Bool := Text.isAlphanumeric c || c ∈ ['-', ':', '_']

/-- What may stand at a place behind the brackets: nothing, or a level. -/
def readLevel (at_ : Nat) : List Char → Option (Option Nat)
  | [] => some none
  | '=' :: _ => some (some (at_ + 1))
  | _ => none

/-- The parts from a place behind the bracket: a span, which may be missing before a field. -/
def readBracket (target : Option Stretch) (at_ : Nat) (cs : List Char) : Option Clause := do
  let span := cs.takeWhile fun c => c ≠ ']' && c ≠ '{'
  let stop := at_ + Text.byteSize span
  match cs.drop span.length with
  | ']' :: cs => return ⟨target, true, none, ← readLevel (stop + 1) cs⟩
  | '{' :: cs =>
    let field := cs.takeWhile (· ≠ '}')
    let closing := stop + 1 + Text.byteSize field
    match cs.drop field.length with
    | '}' :: ']' :: cs =>
      if field = [] then none
      else return ⟨target, span ≠ [], some ⟨stop + 1, closing⟩, ← readLevel (closing + 2) cs⟩
    | _ => none
  | _ => none

/-- The form of a directive without the blanks around it. -/
def readForm (cs : List Char) : Option Form :=
  let target := cs.takeWhile fun c => c ≠ '=' && c ≠ '['
  let stop := Text.byteSize target
  match cs.head?, cs.drop target.length with
  | none, _ => none
  | some '[', rest => (readBracket none 1 rest.tail).map .clause
  | some c, rest =>
    if !isStart c then none
    else
      match rest with
      | [] => some .word
      | '[' :: rest => (readBracket (some ⟨0, stop⟩) (stop + 1) rest).map .clause
      | rest => (readLevel stop rest).map fun level => .clause ⟨some ⟨0, stop⟩, false, none, level⟩

/-- The directives of some parts of a text.  A field with a value belongs to a span, and the value
has to be a criterion.  Without a level all is shown. -/
def Clause.directives? (c : Clause) (cs : List Char) : Option (List Directive) := do
  let target ← (c.target.getD ⟨0, 0⟩).of? cs
  let field ← c.field.mapM (Stretch.of? · cs)
  let word ← (c.level.mapM (Text.dropBytes? · cs)).map (Option.getD · [])
  let level ← if word = [] then some (some .trace) else levelOf? (String.ofList word)
  let one : Directive := ⟨String.ofList target, field.map String.ofList, level⟩
  match Text.splitOn (· = '=') (field.getD []) with
  | _ :: value :: _ => if isCriterion value then some [] else none
  | _ => return if c.inSpan then [] else [one]

/-- The directives that a text says.  A word that is a level is no target. -/
def readAll (cs : List Char) : Option (List Directive) := do
  match ← readForm (Text.trim cs) with
  | .clause c => c.directives? cs
  | .word =>
    match levelOf? (String.ofList cs) with
    | some level => return [⟨"", none, level⟩]
    | none => return [⟨String.ofList cs, none, some .trace⟩]

/-! ## 2. Which directive decides -/

/-- Whether a directive is for an event. -/
def fits (d : Directive) (e : Event) : Bool :=
  d.target.toList.isPrefixOf e.component.toList && d.field.all (· ∈ e.fieldNames)

/-- Whether a directive is at least as specific as another one that fits the same event: it has the
longer target, or as long a one and a field, or of two fields the one that comes later in the
alphabet. -/
def outranks (d d' : Directive) : Bool :=
  d'.target.length < d.target.length ||
    (d'.target.length = d.target.length &&
      match d'.field, d.field with
      | none, _ => true
      | some _, none => false
      | some name', some name => !(name < name'))

/-- Of two directives that fit, the one that decides; of two equally specific ones, the later. -/
def decisive (d d' : Directive) : Directive := if d'.outranks d then d' else d

end Directive

/-! ## 3. Filters -/

abbrev Filter := List Directive

namespace Filter

/-- What is shown if nothing is asked for. -/
def default : Filter := [⟨"", none, some .info⟩]

/-- The filter that a text says; a text that is no filter asks for nothing, and an empty one shows
nothing. -/
def ofText (s : String) : Filter :=
  let parts := (Text.splitOn (· = ',') s.toList).filter (· ≠ [])
  ((parts.mapM Directive.readAll).map List.flatten).getD default

/-- Whether an event is shown. -/
def shows (f : Filter) (e : Event) : Bool :=
  match f.filter (Directive.fits · e) with
  | [] => false
  | d :: ds =>
    match (ds.foldl Directive.decisive d).level with
    | none => false
    | some level => e.level.rank ≤ level.rank

end Filter

end ScriptPlugins.Log
