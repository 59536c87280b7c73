import ScriptPlugins.Discovery.Pattern
import ScriptPlugins.Program.Failure
import ScriptPlugins.Script.Basic

/-!
# Discovering scripts — from the files of a directory to scripts

The name of a script file says its id and kind: `id.ext` is for projects, `id.settings.ext` for
settings, `id.init.ext` for invocations.
-/

namespace ScriptPlugins

/-- The id and kind that a file name says, if it has the extension and an id. -/
def scriptIdentity? (fileName extension : String) : Option (String × ScriptKind) := do
  let stem ← Text.withoutEnd? ("." ++ extension) fileName
  let (id, kind) :=
    match Text.withoutEnd? ".settings" stem, Text.withoutEnd? ".init" stem with
    | some id, _ => (id, .settings)
    | none, some id => (id, .invocation)
    | none, none => (stem, .project)
  if id = "" then none else some (id, kind)

/-- The script in a file. -/
def FileTree.loadScript (t : FileTree) (p : Path) (extension : String) : Except Failure Script :=
  match p.fileName? with
  | none => .error (.of ("Invalid script file name: " ++ p.text))
  | some name =>
    match scriptIdentity? name extension with
    | none => .error (.of ("Cannot derive a script id from " ++ p.text))
    | some (id, kind) =>
      match t.readText p with
      | .error e => .error ⟨"Failed to read script: " ++ p.text, e.chain⟩
      | .ok source => .ok ⟨id, kind, source, some p⟩

/-- How refusals of a text that is no pattern are told: the reason is not told apart. -/
def Pattern.refusal : String := "<glob error>"

/-- The files below a directory that have an extension, in the order of paths.  Directory and
extension are read as patterns. -/
def FileTree.scriptFiles (t : FileTree) (dir : Path) (extension : String) :
    Except Failure (List Path) :=
  if t.isDirectory dir then
    let text := ((dir.join "**").join ("*." ++ extension)).text
    match Pattern.ofText? text with
    | none => .error ⟨"Invalid script pattern: " ++ text, [Pattern.refusal]⟩
    | some pattern => .ok (((pattern.find t).filter t.isFile).mergeSort Path.precedes)
  else .ok []

/-- The scripts below a directory, in the order of their paths. -/
def FileTree.discoverScripts (t : FileTree) (dir : Path) (extension : String) :
    Except Failure (List Script) := do
  (← t.scriptFiles dir extension).mapM fun p => t.loadScript p extension

end ScriptPlugins
