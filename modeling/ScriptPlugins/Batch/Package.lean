import ScriptPlugins.Cache.Basic

/-!
# Packaging — one directory for the compiled classes of a batch

The contents of all registered classes directories are merged into one, and the metadata of the
whole cache is copied beside them.
-/

namespace ScriptPlugins

/-- The name of the directory for metadata among the packaged classes. -/
def packagedMetadata : String := "metadata"

/-- Makes a directory anew, with nothing in it. -/
def resetDirectory (dir : Path) : Attempt BuildError Unit := do
  removeIfThere dir
  makeDirectories dir

/-- What stands at a path and below it, each with its path from there, directories before what they
hold. -/
def FileTree.walkFrom (t : FileTree) (p : Path) : Except FileError (List (String × Entry)) := do
  let e ← (t.look p).mapError (.walking p.text)
  let l ← (t.locate p).mapError (.walking p.text)
  -- What lies inside has the names from the path on.
  let inside := if e = .directory then t.below l else []
  return ("", e) :: inside.map fun (names, e) => (Text.joinWith "/" names, e)

/-- Copies one entry; answers how many files that are. -/
def copyEntry (target : Path) : Entry → Attempt BuildError Nat
  | .directory => do
    makeDirectories target
    return 0
  | .file bytes => do
    match target.parent? with
    | some parent => Attempt.change (.files target) (.makeDirectories parent)
    | none => pure ()
    Attempt.change (.files target) (.writeFile target bytes)
    return 1

/-- Copies what stands at a path and below it; answers the number of files. -/
def copyTree (source dest : Path) : Attempt BuildError Nat := do
  let entries ← Attempt.of (((← Attempt.files).walkFrom source).mapError (.files source))
  let counts ← entries.mapM fun (name, e) => copyEntry (dest.join name) e
  return counts.foldr (· + ·) 0

/-- Packages classes directories and the metadata of a cache; answers the number of files. -/
def package (dirs : List Path) (metadataRoot dest : Path) : Attempt BuildError Nat := do
  let classes ← dirs.mapM fun dir => copyTree dir dest
  let metadata ←
    if (← Attempt.files).isDirectory metadataRoot then
      copyTree metadataRoot (dest.join packagedMetadata)
    else pure 0
  let copied := classes.foldr (· + ·) metadata
  Attempt.report (.packaged dest.text copied)
  return copied

/-- Registered directories, in the order of paths. -/
def sortedDirectories (dirs : List Path) : List Path := dirs.mergeSort Path.precedes

end ScriptPlugins
