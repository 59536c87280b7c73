import Std.Data.ExtTreeMap
import ScriptPlugins.Target.Plugins

/-!
# Targets — the objects that scripts configure

A target records everything that scripts do to it, in order.  Its plugins and properties follow
from that record.  Only projects have plugins.
-/

namespace ScriptPlugins

/-- What a script did to a target. -/
inductive TargetEvent where
  | pluginApplied (id : String)
  | console (line : String)
  | propertySet (key value : String)
  deriving DecidableEq, Repr

structure BuildTarget where
  kind : ScriptKind
  name : String
  scope : Nat
  journal : List TargetEvent
  properties : Std.ExtTreeMap String String
  plugins : Option PluginManager

namespace BuildTarget

/-- A target that nothing has been done to.  Without known ids any plugin is found. -/
def fresh (kind : ScriptKind) (name : String) (scope : Nat) (known : List String) :
    BuildTarget where
  kind := kind
  name := name
  scope := scope
  journal := []
  properties := ∅
  plugins :=
    match kind with
    | .project => some (.fresh (if known = [] then none else some known))
    | .settings | .invocation => none

/-! ## 1. What scripts do -/

def println (t : BuildTarget) (line : String) : BuildTarget :=
  { t with journal := t.journal ++ [.console line] }

def setProperty (t : BuildTarget) (key value : String) : BuildTarget :=
  { t with
    properties := t.properties.insert key value
    journal := t.journal ++ [.propertySet key value] }

/-- Applies a plugin through the manager of the target.  Only a new plugin is recorded. -/
def applyPlugin (t : BuildTarget) (m : PluginManager) (id : String) :
    Except PluginError (Bool × BuildTarget) :=
  match m.apply id with
  | .error e => .error e
  | .ok (newly, m) =>
    let journal := if newly then t.journal ++ [.pluginApplied id] else t.journal
    .ok (newly, { t with plugins := some m, journal })

/-! ## 2. What can be seen -/

def applied (t : BuildTarget) : List String := t.plugins.elim [] PluginManager.applied

def property? (t : BuildTarget) (key : String) : Option String := t.properties[key]?

/-- The lines for the console, in order. -/
def consoleLines (t : BuildTarget) : List String :=
  t.journal.filterMap fun e =>
    match e with
    | .console line => some line
    | _ => none

/-- The plugins that were recorded, in order. -/
def recordedPlugins (t : BuildTarget) : List String :=
  t.journal.filterMap fun e =>
    match e with
    | .pluginApplied id => some id
    | _ => none

end BuildTarget

end ScriptPlugins
