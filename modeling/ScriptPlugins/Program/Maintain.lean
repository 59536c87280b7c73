import ScriptPlugins.Cache.Listing
import ScriptPlugins.Program.Compile

/-!
# The cache command — looking at the cache and cleaning it
-/

namespace ScriptPlugins.Program

/-- The lines on one entry. -/
def entryLines (verbose : Bool) (e : CacheEntry) : List String :=
  let m := e.metadata
  let details :=
    ["    Content hash: " ++ m.contentHash,
      "    Does something: " ++ (if m.runDoesSomething then "true" else "false"),
      "    Classes: " ++ e.classesDir.text,
      "    Metadata: " ++ e.metadataDir.text]
  ["  " ++ e.className,
    "    Phase: " ++ m.phase.name ++ " (" ++ m.kind.name ++ " script)",
    "    Created: " ++ m.createdAt.display] ++ (if verbose then details else []) ++ [""]

/-- The lines on all entries. -/
def listLines (verbose : Bool) : List CacheEntry → List String
  | [] => ["No cached scripts."]
  | entries =>
    ["Cached script phases (" ++ toString entries.length ++ " entries):", ""] ++
      entries.flatMap (entryLines verbose)

def statsLines (s : CacheStats) : List String :=
  ["Compile Cache Statistics", "",
    "Total entries: " ++ toString s.total,
    "No-op entries: " ++ toString s.noop,
    "Corrupt entries: " ++ toString s.corrupt,
    "Total size: " ++ String.ofList (Text.thousandths s.bytes) ++ " KB"]

/-- Does with a cache what is asked for; answers the lines to print. -/
def maintain (c : Cache) : CommandLine.CacheAction → Attempt Failure (List String)
  | .list verbose => do
    return listLines verbose (← Attempt.adapt (whilst "Failed to list cache entries") c.list)
  | .stats => do
    let stats := (c.stats (← Attempt.files)).mapError (whilst "Failed to get cache statistics")
    return statsLines (← Attempt.of stats)
  | .clean _ true => do
    Attempt.adapt (whilst "Failed to clean compile cache") c.clean
    return [lead ++ " All cached script phases cleaned."]
  | .clean none false =>
    throw (.of "Specify --all to clean the whole cache, or provide a class name")
  | .clean (some name) false => do
    Attempt.adapt (whilst ("Failed to clean cache for " ++ name)) (c.remove name)
    return [lead ++ " Cache cleaned for: " ++ name]

def cache (env : Environment) (r : CommandLine.CacheRequest) : Attempt Failure Output := do
  let config ← loadConfig env r.shared.config
  let c := (BuildLayout.mk (r.shared.build (config.getD .default))).cache
  Attempt.adapt (whilst "Failed to open compile cache") c.create
  return ⟨← maintain c r.action, [], none⟩

end ScriptPlugins.Program
