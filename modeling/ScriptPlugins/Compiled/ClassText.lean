import ScriptPlugins.Compiled.Class
import ScriptPlugins.Json.Printer
import ScriptPlugins.Json.Reader
import ScriptPlugins.Json.Record

/-!
# Class text — compiled classes as JSON

A class is a record of its name, phase, kind and steps.  A step is an object: its line, a word
that says what it does, and the fields of that action.
-/

namespace ScriptPlugins

open Json

/-! ## 1. Words and requests -/

def ScriptKind.toJson (k : ScriptKind) : Json := text k.name

def ScriptKind.ofJson? (j : Json) : Option ScriptKind := asWord j >>= ofName?

def Phase.toJson (p : Phase) : Json := text p.name

def Phase.ofJson? (j : Json) : Option Phase := asWord j >>= ofName?

/-- The members of a request; an absent version is left out. -/
def PluginRequest.members (r : PluginRequest) : List (String × Json) :=
  ("id", text r.id) :: (r.version.map fun v => ("version", text v)).toList ++
    [("apply", bool r.apply)]

def PluginRequest.toJson (r : PluginRequest) : Json := object r.members

def PluginRequest.ofJson? (j : Json) : Option PluginRequest := do
  match ← fields ["id", "version", "apply"] j with
  | [id, version, apply] =>
    return ⟨← required asText id, ← optional asText version, ← required asBool apply⟩
  | _ => none

/-! ## 2. Steps -/

/-- The word for what a step does. -/
def Action.word : Action → String
  | println _ => "println"
  | requestPlugin _ => "request-plugin"
  | applyPlugin _ => "apply-plugin"
  | setProperty _ _ => "set-property"

/-- The fields of an action. -/
def Action.members : Action → List (String × Json)
  | println s => [("text", text s)]
  | requestPlugin r => r.members
  | applyPlugin id => [("id", text id)]
  | setProperty key value => [("key", text key), ("value", text value)]

def Step.toJson (s : Step) : Json :=
  object (("line", ofNat s.line) :: ("op", text s.action.word) :: s.action.members)

/-- The greatest number that a line can have. -/
def lineLimit : Nat := 0xFFFFFFFFFFFFFFFF

/-- The word for an action: it may also be given by its number. -/
def Action.word? : Json → Option String
  | text s => some s
  | j => asNat 3 j >>= fun n => ["println", "request-plugin", "apply-plugin", "set-property"][n]?

/-- The action of that word whose fields are among the members. -/
def Action.ofMembers? (word : String) (ms : List (String × Json)) : Option Action :=
  match word with
  | "println" => do return println (← required asText (← member? "text" ms))
  | "request-plugin" => (PluginRequest.ofJson? (object ms)).map requestPlugin
  | "apply-plugin" => do return applyPlugin (← required asText (← member? "id" ms))
  | "set-property" => do
    return setProperty (← required asText (← member? "key" ms))
      (← required asText (← member? "value" ms))
  | _ => none

/-- A step, which stands below three arrays and objects.  All its members but the line are kept
until the action is known, so they have to be sound. -/
def Step.ofJson? : Json → Option Step
  | object ms => do
    let line ← required (asNat lineLimit) (← member? "line" ms)
    let rest := ms.filter (·.1 ≠ "line")
    -- Also members that no action has are kept for a while, so they have to be sound as well.
    if rest.all fun (_, j) => j.keepable 3 then
      let word ← required Action.word? (← member? "op" rest)
      return ⟨line, ← Action.ofMembers? word (rest.filter (·.1 ≠ "op"))⟩
    else none
  | _ => none

/-! ## 3. Classes -/

def CompiledClass.toJson (c : CompiledClass) : Json :=
  object [("name", text c.name), ("phase", c.phase.toJson), ("target_kind", c.kind.toJson),
    ("steps", array (c.steps.map Step.toJson))]

def CompiledClass.ofJson? (j : Json) : Option CompiledClass := do
  match ← fields ["name", "phase", "target_kind", "steps"] j with
  | [name, phase, kind, steps] =>
    return ⟨← required asText name, ← required Phase.ofJson? phase,
      ← required ScriptKind.ofJson? kind, ← required (asList Step.ofJson?) steps⟩
  | _ => none

/-- The text of a class file. -/
def CompiledClass.print (c : CompiledClass) : String := c.toJson.printLaidOut

/-- The class that a text says. -/
def CompiledClass.read (s : String) : Option CompiledClass := Json.read s >>= ofJson?

/-- The file name of a class. -/
def classFileName (name : String) : String := name ++ ".class.json"

end ScriptPlugins
