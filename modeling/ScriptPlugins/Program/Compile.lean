import ScriptPlugins.Batch.Run
import ScriptPlugins.CommandLine.Settings
import ScriptPlugins.Config.Discovery
import ScriptPlugins.Discovery.Scripts
import ScriptPlugins.Program.Output

/-!
# The compile command — all scripts of a directory in one batch
-/

namespace ScriptPlugins.Program

/-- What was being tried when a build failed. -/
def whilst (context : String) (e : BuildError) : Failure := (Failure.ofChain e.chain).whilst context

/-- The line on one script of a batch. -/
def scriptLine (r : ScriptReport) : String :=
  match r.result with
  | .ok success =>
    let state := if success.recompiled.isEmpty then "up-to-date" else "compiled"
    "  ✓ " ++ r.scriptId ++ " -> " ++ success.adapter.name ++ " (" ++ state ++ ")"
  | .error e => "  ✗ " ++ r.scriptId ++ ": " ++ e.message

/-- The number of the scope that a session begins with. -/
def rootScope : Nat := 0

/-- The world that a command begins in: no scope but the root. -/
def start (files : FileTree) (now : Instant) : World := ⟨files, .root rootScopeName, [], [], now⟩

/-- Compiles scripts that have been found, and tells what became of them. -/
def compileFound (s : CommandLine.CompileSettings) (scripts : List Script) :
    Attempt Failure Output := do
  let p : Precompiler := ⟨⟨s.buildDir⟩, .steady, s.workers⟩
  Attempt.adapt (whilst "Failed to initialize compile cache") p.layout.cache.create
  let report ← Attempt.adapt (whilst "Failed to compile scripts")
    (p.compileScripts rootScope scripts)
  Attempt.adapt (fun e => .ofChain e.chain) (Attempt.releaseScope report.scope)
  let total := toString scripts.length
  let failed := report.failures.length
  let headline := lead ++ " Compiled " ++ total ++ " scripts into " ++ s.buildDir.text
  return {
    lines := headline :: report.scripts.map scriptLine
    notices := []
    failure :=
      if failed = 0 then none
      else some (.of (toString failed ++ " of " ++ total ++ " scripts failed to compile")) }

/-- Finds the scripts and compiles them. -/
def compile (env : Environment) (r : CommandLine.CompileRequest) : Attempt Failure Output := do
  let config ← loadConfig env r.shared.config
  let s := r.settings (config.getD .default)
  match ← Attempt.of ((← Attempt.files).discoverScripts s.scriptsDir s.extension) with
  | [] =>
    let line := lead ++ " No *." ++ s.extension ++ " scripts found in " ++ s.scriptsDir.text
    return ⟨[line], [], none⟩
  | scripts => compileFound s scripts

end ScriptPlugins.Program
