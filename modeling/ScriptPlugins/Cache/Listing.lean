import ScriptPlugins.Cache.Basic

/-!
# Cache listing — which entries a cache has, and how much room they take

The directories below the metadata root are the entries.  An entry whose metadata cannot be read is
corrupt: it is counted but not listed.
-/

namespace ScriptPlugins

/-- A readable entry. -/
structure CacheEntry where
  className : String
  metadata : Metadata
  classesDir : Path
  metadataDir : Path
  deriving DecidableEq, Repr

/-- Counts over all entries; the size is that of all their files. -/
structure CacheStats where
  total : Nat
  bytes : Nat
  noop : Nat
  corrupt : Nat
  deriving DecidableEq, Repr

/-- The size of a file, or of all files below a directory. -/
def FileTree.sizeOf (t : FileTree) (p : Path) : Nat :=
  match t.locate p with
  | .error _ => 0
  | .ok l =>
    match t.entry? l with
    | some (.file bytes) => bytes.size
    | some .directory => (t.below l).foldr (fun (_, e) n => size e + n) 0
    | none => 0
where
  size : Entry → Nat
    | .file bytes => bytes.size
    | .directory => 0

namespace Cache

variable (c : Cache)

/-- The names of all entries, in order. -/
def names (t : FileTree) : Except BuildError (List String) :=
  match t.list c.metadataRoot with
  | .error e => .error (.files c.metadataRoot e)
  | .ok entries =>
    let names := entries.filterMap fun (name, e) => if e = .directory then some name else none
    .ok (names.mergeSort fun a b => (compare a b).isLE)

/-- All entries with their metadata or the reason why it cannot be read. -/
def read (t : FileTree) : Except BuildError (List (String × Except LoadError Metadata)) := do
  return (← c.names t).map fun name => (name, t.readMetadata (c.metadataDir name))

/-- The readable entries, in the order of their names. -/
def list : Attempt BuildError (List CacheEntry) := do
  let mut entries := []
  for (name, metadata) in ← Attempt.of (c.read (← Attempt.files)) do
    match metadata with
    | .ok m => entries := entries ++ [⟨name, m, c.classesDir name, c.metadataDir name⟩]
    | .error e => Attempt.report (.entryUnreadable name e.message)
  return entries

/-- Whether the metadata of an entry says that its run does nothing. -/
def isNoop : Except LoadError Metadata → Bool
  | .ok m => !m.runDoesSomething
  | .error _ => false

def stats (t : FileTree) : Except BuildError CacheStats := do
  let entries ← c.read t
  return {
    total := entries.length
    bytes := entries.foldr (fun (name, _) n =>
      t.sizeOf (c.classesDir name) + t.sizeOf (c.metadataDir name) + n) 0
    noop := entries.countP fun (_, m) => isNoop m
    corrupt := entries.countP fun (_, m) => !m.isOk }

end Cache

end ScriptPlugins
