import ScriptPlugins.Compile.Unit
import ScriptPlugins.Script.Basic
import ScriptPlugins.Toml.Quoted
import ScriptPlugins.Toml.Reader

/-!
# Adapters — which classes a script id stands for

An adapter ties the id of a script to its compiled classes.  A class whose run does nothing is left
out, so that it is never looked for.  An adapter is kept as TOML in a file named after it.
-/

namespace ScriptPlugins

structure Adapter where
  name : String
  scriptId : String
  kind : ScriptKind
  preambleClass : Option String
  bodyClass : Option String
  deriving DecidableEq, Repr

/-- The name of a class whose run does something. -/
def LoadedUnit.nameIfUsed? (u : LoadedUnit) : Option String :=
  if u.runDoesSomething then some u.compiled.name else none

/-- One of several words; a word may also stand as the only key of a table, with nothing in it. -/
def Toml.asWord : Toml → Option String
  | text s => some s
  | table _ [(key, table _ [])] | table _ [(key, array [])] => some key
  | _ => none

def Toml.asText : Toml → Option String
  | text s => some s
  | _ => none

namespace Adapter

/-- The adapter of a script whose phases have been loaded. -/
def ofScript (s : Script) (preamble : Option LoadedUnit) (body : LoadedUnit) : Adapter where
  name := s.adapterName
  scriptId := s.id
  kind := s.kind
  preambleClass := preamble >>= LoadedUnit.nameIfUsed?
  bodyClass := body.nameIfUsed?

def fileName (a : Adapter) : String := a.name ++ ".toml"

/-- The keys of an adapter with their texts, in order. -/
def members (a : Adapter) : List (String × String) :=
  [("adapter_class", a.name), ("script_id", a.scriptId), ("target_kind", a.kind.name)] ++
    (a.preambleClass.map fun c => ("preamble_class", c)).toList ++
    (a.bodyClass.map fun c => ("body_class", c)).toList

/-- The text of an adapter: a comment that names the script, then one line for each key. -/
def print (a : Adapter) : String :=
  let lines := a.members.map fun (key, value) => key ++ " = " ++ Toml.quote value ++ "\n"
  "# Precompiled " ++ a.scriptId ++ " script plugin.\n" ++ String.join lines

/-- The text of a key that may be missing. -/
def optionalText : Option Toml → Option (Option String)
  | none => some none
  | some v => v.asText.map some

def ofMembers? (ms : Toml.Members) : Option Adapter := do
  match ← ms.select ["adapter_class", "script_id", "target_kind", "preamble_class",
    "body_class"] with
  | [name, scriptId, kind, preambleClass, bodyClass] =>
    return {
      name := ← name >>= Toml.asText
      scriptId := ← scriptId >>= Toml.asText
      kind := ← kind >>= Toml.asWord >>= ScriptKind.ofName?
      preambleClass := ← optionalText preambleClass
      bodyClass := ← optionalText bodyClass }
  | _ => none

/-- The adapter that a text says.  Keys that are none of its own are passed over, though their
values have to be sound. -/
def read (s : String) : Option Adapter := Toml.read s >>= ofMembers?

end Adapter

end ScriptPlugins
