import ScriptPlugins.Language.Statement
import ScriptPlugins.Scope.Tree

/-!
# Compile errors — why a phase cannot be compiled or loaded
-/

namespace ScriptPlugins

/-- Why a source is no program of its phase. -/
inductive SourceFault where
  | tokens (fault : Language.LexFault)
  | statements (fault : Language.ParseFault)
  | requestedBefore (id : String) (line : Nat)
  | onlyRequests
  deriving DecidableEq, Repr

def SourceFault.message : SourceFault → String
  | tokens fault => fault.message
  | statements fault => fault.message
  | requestedBefore id line =>
    "plugin with id '" ++ id ++ "' was already requested at line " ++ toString line
  | onlyRequests => "only plugins \x7b\x7d blocks are allowed in the plugin request phase"

/-- Why a compiled phase cannot be loaded from the cache. -/
inductive LoadError where
  | io (path : Path) (cause : FileError)
  | corrupt (path : Path) (reason : String)
  | hashMismatch (className expected found : String)
  | operationMismatch (className expected found : String)
  | scope (cause : ScopeError)
  deriving DecidableEq, Repr

namespace LoadError

def message : LoadError → String
  | io path cause => "Failed to access " ++ path.text ++ ": " ++ cause.message
  | corrupt path reason => "Corrupt cache entry " ++ path.text ++ ": " ++ reason
  | hashMismatch className expected found =>
    "Content hash mismatch for '" ++ className ++ "': expected " ++ expected ++
      ", cache entry has " ++ found
  | operationMismatch className expected found =>
    "Cache entry for '" ++ className ++ "' was compiled as " ++ found ++ ", expected " ++ expected
  | scope cause => cause.message

/-- The messages of an error and of what caused it. -/
def chain : LoadError → List String
  | io path cause => [(io path cause).message, cause.message]
  | scope cause => cause.chain
  | e => [e.message]

end LoadError

/-- Why a phase cannot be compiled. -/
inductive CompileError where
  | syntaxFault (line : Nat) (fault : SourceFault)
  /-- A plugin is requested where the hook of the phase allows none. -/
  | rejected (line : Nat)
  | output (cause : ClassFileError)
  | metadata (cause : LoadError)
  deriving DecidableEq, Repr

namespace CompileError

def message : CompileError → String
  | syntaxFault line fault => Language.onLine line fault.message
  | rejected line =>
    Language.onLine line
      "all plugins \x7b\x7d blocks must appear before any other statements in the script"
  | output cause => "Failed to write compiled output: " ++ cause.message
  | metadata cause => "Failed to write compiled metadata: " ++ cause.message

/-- The messages of an error and of what caused it. -/
def chain : CompileError → List String
  | output cause => (output cause).message :: cause.chain
  | metadata cause => (metadata cause).message :: cause.chain
  | e => [e.message]

end CompileError

end ScriptPlugins
