import ScriptPlugins.Compile.Lowering
import ScriptPlugins.Compiled.Metadata
import ScriptPlugins.Job.Basic

/-!
# Compiled units — writing and loading the class of one phase

A unit lies in two directories: one holds the class file, the other the metadata, which is written
last.  Loading checks the metadata against what is asked for before anything is exported.
-/

namespace ScriptPlugins

/-! ## 1. Class and metadata files -/

/-- The file of a class in a directory. -/
def classFile (dir : Path) (name : String) : Path := dir.join (classFileName name)

def metadataFile (dir : Path) : Path := dir.join metadataFileName

/-- Writes a class file, making its directory. -/
def writeClass (dir : Path) (c : CompiledClass) : Attempt ClassFileError Path := do
  let path := classFile dir c.name
  Attempt.change (.io path) (.makeDirectories dir)
  Attempt.change (.io path) (.writeFile path c.print.toUTF8)
  return path

/-- Writes metadata, making its directory. -/
def writeMetadata (dir : Path) (m : Metadata) : Attempt LoadError Unit := do
  let path := metadataFile dir
  Attempt.change (.io path) (.makeDirectories dir)
  Attempt.change (.io path) (.writeFile path m.print.toUTF8)

/-- The metadata in a directory. -/
def FileTree.readMetadata (t : FileTree) (dir : Path) : Except LoadError Metadata :=
  let path := metadataFile dir
  match t.readText path with
  | .error e => .error (.io path e)
  | .ok s =>
    match Metadata.read s with
    | some m => .ok m
    | none => .error (.corrupt path Json.refusal)

/-! ## 2. Units -/

/-- Which unit is meant: its name, the digest of its script, its phase and kind, and its two
directories. -/
structure UnitKey where
  className : String
  contentHash : String
  phase : Phase
  kind : ScriptKind
  classesDir : Path
  metadataDir : Path

/-- A loaded phase of a script, and the scope that exports its class. -/
structure LoadedUnit where
  compiled : CompiledClass
  contentHash : String
  runDoesSomething : Bool
  hasMethods : Bool
  notes : ClassNotes
  scope : Nat

/-- The class that steps make. -/
def UnitKey.classOf (k : UnitKey) (steps : List Step) : CompiledClass :=
  ⟨k.className, k.phase, k.kind, steps⟩

/-- The metadata of a unit made of steps at some time. -/
def UnitKey.metadataOf (k : UnitKey) (steps : List Step) (now : Instant) : Metadata where
  version := metadataVersion
  className := k.className
  contentHash := k.contentHash
  phase := k.phase
  kind := k.kind
  runDoesSomething := !steps.isEmpty
  hasMethods := false
  notes :=
    match k.phase with
    | .preamble => .none
    | .body => .buildScript (steps.any fun s => !s.action.isRequest)
  createdAt := now

/-- Compiles a source and writes the unit.  Nothing is written unless the source is right. -/
def UnitKey.compile (k : UnitKey) (hook : Hook) (source : String) : Attempt CompileError Unit := do
  let steps ← Attempt.of (stepsOf k.phase hook source)
  -- The class goes first: where there is metadata, the class is complete.
  let now := (← Attempt.observe).now
  discard <| Attempt.adapt .output (writeClass k.classesDir (k.classOf steps))
  Attempt.adapt .metadata (writeMetadata k.metadataDir (k.metadataOf steps now))
  Attempt.report (.unitCompiled k.className k.phase.name steps.length)

/-- Exports the classes of a directory through a scope: first the scope is asked, then the directory
is read, then the classes are exported. -/
def exportDirectory (scope : Nat) (dir : Path) : Attempt ScopeError (List String) := do
  let scopes ← Attempt.scopes
  -- A locked scope refuses before anything is read.
  discard <| Attempt.of (scopes.unlocked scope ScopeTree.exportingDirectory)
  let files ← Attempt.files
  let classes ← Attempt.of ((files.readClasses dir).mapError .classFile)
  Attempt.alter id (.exportAll scope dir classes)
  let name := ((scopes.scope? scope).map Scope.name).getD ""
  Attempt.report (.directoryExported name dir.text classes.length)
  return classes.map CompiledClass.name

/-- Whether metadata belongs to the unit that is asked for. -/
def UnitKey.check (k : UnitKey) (m : Metadata) : Except LoadError Unit :=
  if m.className ≠ k.className then
    .error (.corrupt (metadataFile k.metadataDir)
      ("entry belongs to '" ++ m.className ++ "', expected '" ++ k.className ++ "'"))
  else if m.phase ≠ k.phase ∨ m.kind ≠ k.kind then
    .error (.operationMismatch k.className (k.phase.describe k.kind) (m.phase.describe m.kind))
  else if m.contentHash ≠ k.contentHash then
    .error (.hashMismatch k.className k.contentHash m.contentHash)
  else .ok ()

/-- Loads a unit, exporting its classes directory through a scope. -/
def UnitKey.load (k : UnitKey) (scope : Nat) : Attempt LoadError LoadedUnit := do
  let files ← Attempt.files
  let m ← Attempt.of (files.readMetadata k.metadataDir)
  Attempt.of (k.check m)
  discard <| Attempt.adapt .scope (exportDirectory scope k.classesDir)
  let scopes ← Attempt.scopes
  let compiled ← Attempt.of ((scopes.resolve scope k.className).mapError .scope)
  return ⟨compiled, m.contentHash, m.runDoesSomething, m.hasMethods, m.notes, scope⟩

end ScriptPlugins
