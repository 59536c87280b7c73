import ScriptPlugins.Program.Failure
import ScriptPlugins.Text.Blank
import ScriptPlugins.Text.Quoted

/-!
# Configuration — where a build finds its scripts and keeps its files
-/

namespace ScriptPlugins

structure Config where
  buildDir : String
  scriptsDir : String
  extension : String
  /-- How many scripts are compiled at once; zero for as many as possible. -/
  workers : Nat
  /-- The plugins that targets accept; none for any. -/
  knownPlugins : List String
  deriving DecidableEq, Repr

namespace Config

def default : Config := ⟨"build", "src/main/prescript", "pscript", 0, []⟩

/-- What is wrong with a configuration. -/
inductive Fault where
  | noBuildDir
  | noScriptsDir
  | extension (extension : String)
  | emptyPlugin (id : String)
  deriving DecidableEq, Repr

def Fault.message : Fault → String
  | noBuildDir => "build.dir must be set"
  | noScriptsDir => "scripts.dir must be set"
  | extension e =>
    "scripts.extension must be a bare extension without dots or slashes: " ++ e
  | emptyPlugin id => "apply.known_plugins must not contain empty ids: " ++ Text.quoted id

/-- Whether a text is an extension by itself: not empty, without a point in front and without
slashes. -/
def isBareExtension (e : String) : Bool :=
  e ≠ "" ∧ e.toList.head? ≠ some '.' ∧ '/' ∉ e.toList

/-- The first thing that is wrong with a configuration. -/
def fault? (c : Config) : Option Fault :=
  if c.buildDir = "" then some .noBuildDir
  else if c.scriptsDir = "" then some .noScriptsDir
  else if !isBareExtension c.extension then some (.extension c.extension)
  else (c.knownPlugins.find? fun id => Text.allBlank id.toList).map .emptyPlugin

end Config

end ScriptPlugins
