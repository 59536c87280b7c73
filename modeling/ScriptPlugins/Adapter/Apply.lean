import ScriptPlugins.Adapter.Basic
import ScriptPlugins.Run.Runner

/-!
# Applying adapters — from a script id to the effects of its script on a target

The classes are looked up through the scope of the target, and only then a runner is made.  Every
failure names the script.
-/

namespace ScriptPlugins

/-- Why a script could not be applied. -/
structure ApplyFailure where
  scriptId : String
  cause : RunError
  deriving DecidableEq, Repr

namespace ApplyFailure

def message (f : ApplyFailure) : String :=
  "Failed to apply precompiled script '" ++ f.scriptId ++ "': " ++ f.cause.message

/-- The messages of a failure and of what caused it. -/
def chain (f : ApplyFailure) : List String := f.message :: f.cause.chain

end ApplyFailure

namespace Adapter

/-- The class of a name, if there is a name, as a scope sees it. -/
def resolve (scopes : ScopeTree) (scope : Nat) :
    Option String → Except ScopeError (Option CompiledClass)
  | none => .ok none
  | some name => (scopes.resolve scope name).map some

/-- The classes that an adapter runs on a target, if it is for such targets. -/
def classes (a : Adapter) (scopes : ScopeTree) (t : BuildTarget) :
    Except RunError (Option CompiledClass × Option CompiledClass) := do
  if t.kind ≠ a.kind then .error (.incompatibleTarget a.kind t.kind)
  let pre ← (resolve scopes t.scope a.preambleClass).mapError .scope
  let main ← (resolve scopes t.scope a.bodyClass).mapError .scope
  return (pre, main)

/-- Finds the classes and runs them. -/
def execute (a : Adapter) (x : Execution) : Job (Execution.Result RunError Unit) := do
  let scopes := (← Job.perform .observe).scopes
  match a.classes scopes x.target with
  | .error e => return (.error e, x)
  | .ok (pre, main) =>
    match ← (Runner.forTarget x.target).run with
    | .error e => return (.error e, x)
    | .ok runner => return (← runner.run x pre main).1

/-- Applies an adapter to the target of an execution. -/
def apply (a : Adapter) (x : Execution) : Job (Execution.Result ApplyFailure Unit) := do
  discard <| Job.perform (.report (.adapterApplying a.scriptId x.target.name))
  match ← a.execute x with
  | (.ok (), x) => return (.ok (), x)
  | (.error cause, x) =>
    discard <| Job.perform (.report (.adapterFailed a.scriptId cause.message))
    return (.error ⟨a.scriptId, cause⟩, x)

end Adapter

end ScriptPlugins
