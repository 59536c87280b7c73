import ScriptPlugins.Build.Error
import ScriptPlugins.Build.Layout
import ScriptPlugins.Compile.Unit
import ScriptPlugins.Script.Basic

/-!
# The compile cache — one entry for each compiled class

An entry has the name of its class.  It has a directory below each of two roots: one holds the class
file, the other the metadata.  Entries are removed class first, so that what is left of an
interrupted removal is never taken for a whole entry.
-/

namespace ScriptPlugins

structure Cache where
  classesRoot : Path
  metadataRoot : Path
  deriving DecidableEq, Repr

/-- The cache of a build. -/
def BuildLayout.cache (b : BuildLayout) : Cache := ⟨b.cachedClasses, b.cachedMetadata⟩

/-- Removes a directory with everything below it; it may be missing. -/
def removeIfThere (dir : Path) : Attempt BuildError Unit := do
  match ← (Attempt.change (fun e => e) (.removeDirectory dir)).run with
  | .ok () | .error .notFound => return
  | .error e => throw (.files dir e)

/-- Makes a directory and those above it. -/
def makeDirectories (dir : Path) : Attempt BuildError Unit :=
  Attempt.change (.files dir) (.makeDirectories dir)

namespace Cache

variable (c : Cache)

/-- Where the class file of an entry lies. -/
def classesDir (name : String) : Path := c.classesRoot.join name

/-- Where the metadata of an entry lies. -/
def metadataDir (name : String) : Path := c.metadataRoot.join name

/-- What is asked for when a phase of a script is compiled or loaded. -/
def key (s : Script) (phase : Phase) : UnitKey where
  className := s.classNameOf phase
  contentHash := s.contentHash
  phase := phase
  kind := s.kind
  classesDir := c.classesDir (s.classNameOf phase)
  metadataDir := c.metadataDir (s.classNameOf phase)

/-- Makes both roots. -/
def create : Attempt BuildError Unit := do
  makeDirectories c.classesRoot
  makeDirectories c.metadataRoot

/-- Removes the entry of a name. -/
def remove (name : String) : Attempt BuildError Unit := do
  removeIfThere (c.classesDir name)
  removeIfThere (c.metadataDir name)

/-- Removes all entries. -/
def clean : Attempt BuildError Unit := do
  removeIfThere c.classesRoot
  makeDirectories c.classesRoot
  removeIfThere c.metadataRoot
  makeDirectories c.metadataRoot

end Cache

end ScriptPlugins
