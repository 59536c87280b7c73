import ScriptPlugins.Compile.Error

/-!
# Build errors — why a script of a batch fails, or a whole session does
-/

namespace ScriptPlugins

inductive BuildError where
  | notCompiled (phase : Phase) (script : String) (cause : CompileError)
  | files (path : Path) (cause : FileError)
  | notLoaded (script : String) (cause : LoadError)
  | nameTaken (name script first : String)
  | crashed (script reason : String)
  | scope (cause : ScopeError)
  | adapterNotWritten (path : Path) (cause : FileError)
  | adapterMalformed (path : Path) (reason : String)
  deriving DecidableEq, Repr

namespace BuildError

def message : BuildError → String
  | notCompiled phase script cause =>
    "Failed to compile " ++ phase.name ++ " of script '" ++ script ++ "': " ++ cause.message
  | files path cause => "Cache I/O error at " ++ path.text ++ ": " ++ cause.message
  | notLoaded script cause =>
    "Failed to load compiled script '" ++ script ++ "': " ++ cause.message
  | nameTaken name script first =>
    "Class name '" ++ name ++ "' of script '" ++ script ++ "' is already used by script '" ++
      first ++ "'"
  | crashed script reason => "Compilation of script '" ++ script ++ "' panicked: " ++ reason
  | scope cause => cause.message
  | adapterNotWritten path cause =>
    "Failed to write adapter " ++ path.text ++ ": " ++ cause.message
  | adapterMalformed path reason => "Malformed adapter " ++ path.text ++ ": " ++ reason

/-- The messages of an error and of what caused it. -/
def chain : BuildError → List String
  | notCompiled phase script cause => (notCompiled phase script cause).message :: cause.chain
  | files path cause => (files path cause).message :: cause.chain
  | notLoaded script cause => (notLoaded script cause).message :: cause.chain
  | scope cause => cause.chain
  | adapterNotWritten path cause => (adapterNotWritten path cause).message :: cause.chain
  | adapterMalformed path reason => [(adapterMalformed path reason).message, reason]
  | e => [e.message]

/-- The phase that an error belongs to, if it belongs to one. -/
def phase? : BuildError → Option Phase
  | notCompiled phase _ _ => some phase
  | _ => none

end BuildError

end ScriptPlugins
