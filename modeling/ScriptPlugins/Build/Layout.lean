import ScriptPlugins.Files.Path

/-!
# Build layout — where a build keeps its files

The cache has one directory for classes and one for metadata.  What is packaged lies apart from it,
the classes beside the adapters.
-/

namespace ScriptPlugins

/-- The directory that everything lies below. -/
structure BuildLayout where
  root : Path
  deriving DecidableEq, Repr

namespace BuildLayout

variable (b : BuildLayout)

/-- The classes of the cache. -/
def cachedClasses : Path := (b.root.join "compiled-scripts").join "classes"

/-- The metadata of the cache. -/
def cachedMetadata : Path := (b.root.join "compiled-scripts").join "metadata"

def output : Path := (b.root.join "generated-classes").join "script-plugins"

/-- The packaged classes. -/
def outputClasses : Path := b.output.join "classes"

def adapters : Path := b.output.join "adapters"

end BuildLayout

end ScriptPlugins
