import ScriptPlugins.Compiled.ClassText
import ScriptPlugins.Files.Tree

/-!
# Class files — the compiled classes of a directory

A class lies in a file named after it.  The classes of a directory are those of the class files
directly inside it; one file that cannot be read refuses them all.
-/

namespace ScriptPlugins

/-- Why a class file cannot be read or written. -/
inductive ClassFileError where
  | io (path : Path) (cause : FileError)
  | malformed (path : Path)
  deriving DecidableEq, Repr

namespace ClassFileError

def message : ClassFileError → String
  | io path cause => "Failed to access class file " ++ path.text ++ ": " ++ cause.message
  | malformed path => "Malformed class file " ++ path.text ++ ": " ++ Json.refusal

/-- The messages of an error and of what caused it. -/
def chain : ClassFileError → List String
  | io path cause => [(io path cause).message, cause.message]
  | malformed path => [(malformed path).message, Json.refusal]

end ClassFileError

/-- Whether a name is that of a class file. -/
def isClassFileName (name : String) : Bool := (Text.withoutEnd? ".class.json" name).isSome

/-- The class in a file. -/
def FileTree.readClass (t : FileTree) (p : Path) : Except ClassFileError CompiledClass :=
  match t.readText p with
  | .error e => .error (.io p e)
  | .ok s =>
    match CompiledClass.read s with
    | some c => .ok c
    | none => .error (.malformed p)

/-- The classes of the class files directly inside a directory, in the order of their names.  Of
classes with one name the one whose file the directory hands out later comes later. -/
def FileTree.readClasses (t : FileTree) (dir : Path) :
    Except ClassFileError (List CompiledClass) :=
  match t.list dir with
  | .error e => .error (.io dir e)
  | .ok entries =>
    let names := (entries.map Prod.fst).filter fun name =>
      isClassFileName name && t.isFile (dir.join name)
    (names.mapM fun name => t.readClass (dir.join name)).map fun (cs : List CompiledClass) =>
      cs.mergeSort fun a b => (compare a.name b.name).isLE

end ScriptPlugins
