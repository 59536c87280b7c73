/-!
# Compiled classes — the two phases of a script as lists of steps

A script compiles into at most two classes: the preamble requests plugins, the body does the rest.
A class says for which kind of target it was compiled, and each of its steps keeps the line of the
statement it comes from.
-/

namespace ScriptPlugins

/-- What a script configures. -/
inductive ScriptKind where
  | project
  | settings
  | invocation
  deriving DecidableEq, Repr, Inhabited

namespace ScriptKind

def name : ScriptKind → String
  | project => "project"
  | settings => "settings"
  | invocation => "invocation"

def ofName? : String → Option ScriptKind
  | "project" => some project
  | "settings" => some settings
  | "invocation" => some invocation
  | _ => none

end ScriptKind

/-- The two phases of a script. -/
inductive Phase where
  | preamble
  | body
  deriving DecidableEq, Repr, Inhabited

namespace Phase

def name : Phase → String
  | preamble => "preamble"
  | body => "body"

def ofName? : String → Option Phase
  | "preamble" => some preamble
  | "body" => some body
  | _ => none

/-- How a phase of a script for a kind of target is told. -/
def describe (p : Phase) (k : ScriptKind) : String := p.name ++ " of a " ++ k.name ++ " script"

end Phase

/-- The request for a plugin, made by a preamble. -/
structure PluginRequest where
  id : String
  version : Option String
  apply : Bool
  deriving DecidableEq, Repr

/-- How a request is told. -/
def PluginRequest.display (r : PluginRequest) : String :=
  let version := r.version.elim "" fun v => ", version: '" ++ v ++ "'"
  let apply := if r.apply then "" else ", apply: false"
  "[id: '" ++ r.id ++ "'" ++ version ++ apply ++ "]"

/-- What a step does to a target. -/
inductive Action where
  | println (text : String)
  | requestPlugin (request : PluginRequest)
  | applyPlugin (id : String)
  | setProperty (key value : String)
  deriving DecidableEq, Repr

def Action.isRequest : Action → Bool
  | requestPlugin _ => true
  | _ => false

/-- An action and the line of the script it stands on. -/
structure Step where
  line : Nat
  action : Action
  deriving DecidableEq, Repr

/-- One compiled phase of a script. -/
structure CompiledClass where
  name : String
  phase : Phase
  kind : ScriptKind
  steps : List Step
  deriving DecidableEq, Repr

/-- How a class is told apart from others of its name. -/
def CompiledClass.describe (c : CompiledClass) : String := c.phase.describe c.kind

end ScriptPlugins
