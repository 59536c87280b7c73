import ScriptPlugins.Adapter.Apply
import ScriptPlugins.Adapter.Registry
import ScriptPlugins.Batch.Output
import ScriptPlugins.Program.Compile

/-!
# The apply command — one compiled script on a fresh target

What the script did is told even if it fails half way.
-/

namespace ScriptPlugins.Program

/-- What is told about a target: its console, and the plugins it got. -/
def tell (t : BuildTarget) (failure : Option Failure) : Output where
  lines := t.consoleLines
  notices := t.recordedPlugins.map fun id => lead ++ " Applied plugin: " ++ id
  failure := failure

/-- The adapter for a script id in a build. -/
def findAdapter (build : Path) (id : String) : Attempt Failure Adapter := do
  let registry ← Attempt.of
    (((← Attempt.files).readRegistry (BuildLayout.mk build).adapters).mapError
    (whilst "Failed to load script adapters"))
  match registry[id]? with
  | some a => return a
  | none =>
    throw (.of ("No compiled script with id '" ++ id ++ "' in " ++ build.text ++
      ". Run `prescript compile` first."))

def apply (env : Environment) (r : CommandLine.ApplyRequest) : Attempt Failure Output := do
  let config ← loadConfig env r.shared.config
  let s := r.settings (config.getD .default)
  let adapter ← findAdapter s.buildDir r.scriptId
  let plugins ← Attempt.adapt (whilst "Failed to load compiled scripts")
    (BuildLayout.openOutput ⟨s.buildDir⟩ rootScope)
  let scope ← Attempt.adapt (fun e => .ofChain e.chain) (Attempt.newScope plugins s.targetName)
  let target := BuildTarget.fresh adapter.kind s.targetName scope s.knownPlugins
  -- A run that fails is no failure yet: first it is told what was done.
  let (result, x) ← ExceptT.lift (adapter.apply (.start target))
  match result with
  | .ok () => return tell x.target none
  | .error f => return tell x.target (some (.ofChain f.chain))

end ScriptPlugins.Program
