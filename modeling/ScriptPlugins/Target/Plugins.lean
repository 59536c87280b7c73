import ScriptPlugins.Compiled.Class

/-!
# Plugins — which plugins a target has, and which it may get
-/

namespace ScriptPlugins

/-- Why a plugin cannot be applied. -/
inductive PluginError where
  | notFound (id : String)
  | duplicateRequest (id : String)
  | noPluginManager (id : String)
  deriving DecidableEq, Repr

namespace PluginError

def message : PluginError → String
  | notFound id => "Plugin with id '" ++ id ++ "' not found"
  | duplicateRequest id => "Plugin with id '" ++ id ++ "' was requested more than once"
  | noPluginManager id => "Cannot apply plugin '" ++ id ++ "': target has no plugin manager"

end PluginError

/-- The plugins of a target in the order in which they were applied.  If the known ids are given,
no other plugin is found. -/
structure PluginManager where
  applied : List String
  known : Option (List String)
  deriving DecidableEq, Repr

namespace PluginManager

/-- No plugins yet. -/
def fresh (known : Option (List String)) : PluginManager := ⟨[], known⟩

def has (m : PluginManager) (id : String) : Bool := id ∈ m.applied

def knows (m : PluginManager) (id : String) : Bool := m.known.all (id ∈ ·)

/-- Applies a plugin; one that is there is not applied again.  Answers whether it is new. -/
def apply (m : PluginManager) (id : String) : Except PluginError (Bool × PluginManager) :=
  if m.has id then .ok (false, m)
  else if m.knows id then .ok (true, { m with applied := m.applied ++ [id] })
  else .error (.notFound id)

end PluginManager

end ScriptPlugins
