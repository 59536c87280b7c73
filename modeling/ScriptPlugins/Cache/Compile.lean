import ScriptPlugins.Cache.Basic
import ScriptPlugins.Job.Scopes

/-!
# Compiling through the cache — each phase is compiled only if it has to be

An entry is fresh if its metadata belongs to the phase, the kind and the very source at hand.  A
stale entry is removed and compiled anew, whatever is wrong with it.  A class is loaded from its
entry in every case.
-/

namespace ScriptPlugins

/-- The state of an entry before a phase is compiled. -/
inductive Freshness where
  | missing
  | stale (reason : String)
  | fresh
  deriving DecidableEq, Repr

/-- What compiles: it may crash on a class and its source, with a reason. -/
structure Compiler where
  crash? : String → String → Option String

/-- A compiler that never crashes. -/
def Compiler.steady : Compiler := ⟨fun _ _ => none⟩

/-- Both loaded phases of a script, and the phases that had to be compiled. -/
structure CompiledScript where
  preamble : Option LoadedUnit
  body : LoadedUnit
  recompiled : List Phase

/-- How fresh metadata is for what is asked for. -/
def UnitKey.freshness (k : UnitKey) (m : Metadata) : Freshness :=
  if m.className ≠ k.className then .stale ("entry belongs to '" ++ m.className ++ "'")
  else if m.phase ≠ k.phase ∨ m.kind ≠ k.kind then
    .stale ("compiled as " ++ m.phase.describe m.kind)
  else if m.contentHash ≠ k.contentHash then .stale "content hash changed"
  else .fresh

/-- The state of an entry in the files. -/
def UnitKey.probe (k : UnitKey) (t : FileTree) : Except BuildError Freshness :=
  if !t.isThere (metadataFile k.metadataDir) then .ok .missing
  else if !t.isThere (classFile k.classesDir k.className) then .ok (.stale "class file missing")
  else
    match t.readMetadata k.metadataDir with
    -- Metadata that can be read decides; metadata that is damaged makes the entry stale.
    | .ok m => .ok (k.freshness m)
    | .error (.io path cause) => .error (.files path cause)
    | .error e => .ok (.stale e.message)

namespace Cache

variable (c : Cache)

/-- Compiles a phase into its entry. -/
def compileEntry (compiler : Compiler) (s : Script) (phase : Phase) : Attempt BuildError Unit := do
  let source := s.sourceOf phase
  match compiler.crash? (s.classNameOf phase) source with
  | some reason => throw (.crashed s.id reason)
  | none =>
    Attempt.adapt (.notCompiled phase s.id) ((c.key s phase).compile phase.hook source)
    Attempt.report (.phaseCompiled s.id (s.classNameOf phase) phase.name)

/-- Makes the entry of a phase fresh.  Answers whether it had to be compiled. -/
def refresh (compiler : Compiler) (s : Script) (phase : Phase) : Attempt BuildError Bool := do
  let name := s.classNameOf phase
  match ← Attempt.of ((c.key s phase).probe (← Attempt.files)) with
  | .fresh =>
    Attempt.report (.phaseReused s.id name phase.name)
    return false
  | .missing =>
    c.compileEntry compiler s phase
    return true
  | .stale reason =>
    Attempt.report (.entryStale s.id name reason)
    c.remove name
    c.compileEntry compiler s phase
    return true

/-- What a failure to load a phase of a script means for the build. -/
def loadFailure (script : String) : LoadError → BuildError
  | .io path cause => .files path cause
  | e => .notLoaded script e

/-- Compiles a phase if it has to be, and loads it through a scope.  Its classes directory is
registered before it is loaded. -/
def compilePhase (compiler : Compiler) (s : Script) (scope : Nat) (phase : Phase) :
    Attempt BuildError (LoadedUnit × Bool) := do
  let compiled ← c.refresh compiler s phase
  let key := c.key s phase
  -- A phase that was compiled is packaged, even if it cannot be loaded below.
  Attempt.perform (.register key.classesDir)
  let unit ← Attempt.adapt (loadFailure s.id) (key.load scope)
  unless compiled do Attempt.adapt .scope (Attempt.reuseScope scope)
  return (unit, compiled)

/-- The preamble of a script, if it has one. -/
def compilePreamble (compiler : Compiler) (s : Script) (scope : Nat) :
    Attempt BuildError (Option LoadedUnit × List Phase) := do
  if s.hasPreamble then
    let (unit, compiled) ← c.compilePhase compiler s scope .preamble
    return (some unit, if compiled then [.preamble] else [])
  else return (none, [])

/-- Compiles both phases of a script as far as they have to be, and loads them. -/
def compileScript (compiler : Compiler) (s : Script) (scope : Nat) :
    Attempt BuildError CompiledScript := do
  let (preamble, recompiled) ← c.compilePreamble compiler s scope
  let (body, compiled) ← c.compilePhase compiler s scope .body
  return ⟨preamble, body, recompiled ++ if compiled then [.body] else []⟩

end Cache

end ScriptPlugins
