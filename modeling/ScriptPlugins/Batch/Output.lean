import ScriptPlugins.Cache.Basic
import ScriptPlugins.Job.Scopes

/-!
# Opening the output — the packaged classes of a build, seen through a scope
-/

namespace ScriptPlugins

/-- The name of the scope that packaged classes are seen through. -/
def outputScopeName : String := "script-plugins"

/-- A new locked scope that exports the packaged classes of a build, if there are any. -/
def BuildLayout.openOutput (b : BuildLayout) (root : Nat) : Attempt BuildError Nat := do
  let scope ← Attempt.adapt .scope (Attempt.newScope root outputScopeName)
  if (← Attempt.files).isDirectory b.outputClasses then
    discard <| Attempt.adapt .scope (exportDirectory scope b.outputClasses)
  else Attempt.report (.nothingPackaged b.outputClasses.text)
  Attempt.adapt .scope (Attempt.lockScope scope)
  return scope

end ScriptPlugins
