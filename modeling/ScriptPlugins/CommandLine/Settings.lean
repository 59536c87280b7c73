import ScriptPlugins.CommandLine.Request
import ScriptPlugins.Config.Basic
import ScriptPlugins.Files.Path

/-!
# Settings — a request completed by the configuration

What the command line leaves open the configuration decides, and its defaults if there is none.
-/

namespace ScriptPlugins.CommandLine

structure CompileSettings where
  buildDir : Path
  scriptsDir : Path
  extension : String
  workers : Nat
  deriving DecidableEq, Repr

structure ApplySettings where
  buildDir : Path
  targetName : String
  knownPlugins : List String
  deriving DecidableEq, Repr

/-- The build directory. -/
def Shared.build (s : Shared) (c : Config) : Path := ⟨s.buildDir.getD c.buildDir⟩

def CompileRequest.settings (r : CompileRequest) (c : Config) : CompileSettings where
  buildDir := r.shared.build c
  scriptsDir := ⟨r.scriptsDir.getD c.scriptsDir⟩
  extension := r.extension.getD c.extension
  workers := r.workers.getD c.workers

/-- A target has the name of its script, unless it gets another one. -/
def ApplyRequest.settings (r : ApplyRequest) (c : Config) : ApplySettings where
  buildDir := r.shared.build c
  targetName := r.targetName.getD r.scriptId
  knownPlugins := r.knownPlugins.getD c.knownPlugins

end ScriptPlugins.CommandLine
