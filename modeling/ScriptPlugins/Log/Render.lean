import ScriptPlugins.Json.Printer
import ScriptPlugins.Log.Event
import ScriptPlugins.Text.Decimal

/-!
# Rendering events — the three forms of a line of the log

A line for people shows the level, the message and the fields; the pretty form colours the level.
The third form is a JSON object for programs.
-/

namespace ScriptPlugins.Log

inductive Format where
  | pretty
  | compact
  | json
  deriving DecidableEq, Repr

/-- The form that a word asks for, in any case; without one, logs of automated builds are
compact. -/
def Format.choose (word : Option String) (automated : Bool) : Format :=
  match (word.getD "").toLower with
  | "json" => .json
  | "compact" => .compact
  | "pretty" => .pretty
  | _ => if automated then .compact else .pretty

namespace FieldValue

/-- A value as people read it: words are in quotes. -/
def display : FieldValue → String
  | text s => s
  | word s => "\"" ++ s ++ "\""
  | count n => toString n
  | flag b => if b then "true" else "false"

def toJson : FieldValue → Json
  | text s | word s => .text s
  | count n => .ofNat n
  | flag b => .bool b

end FieldValue

/-- The code of a colour in a terminal. -/
def Level.colour : Level → String
  | error => "\x1b[31m"
  | warn => "\x1b[33m"
  | info => "\x1b[32m"
  | debug => "\x1b[34m"
  | trace => "\x1b[35m"

/-- The end of a colour. -/
def plainColour : String := "\x1b[0m"

/-- A level in five places. -/
def Level.column (l : Level) : String :=
  l.name ++ String.ofList (List.replicate (5 - l.name.length) ' ')

/-- A character of a message: what controls terminals is written by its code. -/
def showControl (c : Char) : List Char :=
  if c ∈ ['\x1b', '\x07', '\x08', '\x0c', '\x7f'] then
    '\\' :: 'x' :: Text.hexPadded 2 c.toNat
  else if 0x80 ≤ c.toNat ∧ c.toNat ≤ 0x9F then
    ['\\', 'u', '{'] ++ Nat.toDigits 16 c.toNat ++ ['}']
  else [c]

namespace Event

/-- The message and the fields of an event. -/
def sentence (e : Event) : String :=
  String.ofList (e.message.toList.flatMap showControl) ++
    String.join (e.fields.map fun (name, v) => " " ++ name ++ "=" ++ v.display)

def toJson (e : Event) : Json :=
  .object [("level", .text e.level.name),
    ("fields", .object (("message", .text e.message) ::
      e.fields.map fun (name, v) => (name, v.toJson)))]

/-- The name that the log gives to the whole program. -/
def program : String := "(prescript)"

/-- The line of an event, without its time. -/
def render (e : Event) : Format → String
  | .pretty =>
    e.level.colour ++ e.level.column ++ program ++ plainColour ++ ": " ++ e.sentence
  | .compact => e.level.column ++ program ++ ": " ++ e.sentence
  | .json => e.toJson.print

end Event

end ScriptPlugins.Log
