import ScriptPlugins.Program.Apply
import ScriptPlugins.Program.Maintain

/-!
# Running the program — from the words of a command line to the end of a command
-/

namespace ScriptPlugins.Program

/-- Carries out a request. -/
def carryOut (env : Environment) : CommandLine.Request → Attempt Failure Output
  | .compile r => compile env r
  | .apply r => apply env r
  | .cache r => cache env r

/-- Reads a command line and carries out what it asks for. -/
def run (env : Environment) (words : List String) : Job Outcome := do
  match CommandLine.read env words with
  | .error r => return .refused r
  | .ok request =>
    match ← (carryOut env request).run with
    | .ok output => return .done output
    | .error f => return .done (.failed f)

end ScriptPlugins.Program
