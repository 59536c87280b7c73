import ScriptPlugins.Adapter.Basic
import ScriptPlugins.Build.Error

/-!
# Adapter registry — the adapters of a directory by the ids of their scripts
-/

namespace ScriptPlugins

/-- Adapters by script id. -/
abbrev AdapterRegistry := Std.ExtTreeMap String Adapter

/-- Writes an adapter into a directory, which is made.  No reader ever finds a part of the file. -/
def Adapter.generate (a : Adapter) (dir : Path) : Attempt BuildError Path := do
  let path := dir.join a.fileName
  Attempt.change (.adapterNotWritten path) (.makeDirectories dir)
  Attempt.change (.adapterNotWritten path) (.replaceFile path a.print.toUTF8)
  Attempt.report (.adapterGenerated a.scriptId path.text)
  return path

/-- The adapter in a file. -/
def FileTree.readAdapter (t : FileTree) (p : Path) : Except BuildError Adapter :=
  match t.readText p with
  | .error e => .error (.files p e)
  | .ok s =>
    match Adapter.read s with
    | some a => .ok a
    | none => .error (.adapterMalformed p Toml.refusal)

/-- The adapters of the TOML files directly inside a directory; there are none if it is missing.  Of
two adapters for one script the one that the directory hands out later counts. -/
def FileTree.readRegistry (t : FileTree) (dir : Path) : Except BuildError AdapterRegistry :=
  match t.list dir with
  -- A build without scripts has no directory of adapters.
  | .error .notFound => .ok ∅
  | .error e => .error (.files dir e)
  | .ok entries => do
    let names := (entries.map Prod.fst).filter fun name => Path.extensionOf? name = some "toml"
    let adapters ← names.mapM fun name => t.readAdapter (dir.join name)
    return adapters.foldl (fun m a => m.insert a.scriptId a) ∅

end ScriptPlugins
