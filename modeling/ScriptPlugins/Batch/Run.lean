import ScriptPlugins.Adapter.Registry
import ScriptPlugins.Batch.Owners
import ScriptPlugins.Batch.Package
import ScriptPlugins.Cache.Compile

/-!
# Batches — compiling many scripts in one scope

A batch compiles its scripts into a new scope, writes an adapter for each, locks the scope and
packages what was compiled.  A script that fails does not hold up the others.
-/

namespace ScriptPlugins

/-! ## 1. Reports -/

/-- What a batch made of a script. -/
structure ScriptSuccess where
  adapter : Adapter
  adapterPath : Path
  recompiled : List Phase

structure ScriptReport where
  scriptId : String
  result : Except BuildError ScriptSuccess

structure BatchReport where
  scripts : List ScriptReport
  scope : Nat
  packagedFiles : Nat

namespace BatchReport

variable (r : BatchReport)

/-- The ids of the scripts that failed, with their errors. -/
def failures : List (String × BuildError) :=
  r.scripts.filterMap fun s =>
    match s.result with
    | .error e => some (s.scriptId, e)
    | .ok _ => none

def isSuccess : Bool := r.scripts.all (·.result.isOk)

/-- What the batch made of the first script of that id, if it did not fail. -/
def outcome? (id : String) : Option ScriptSuccess := do
  (← r.scripts.find? (·.scriptId = id)).result.toOption

end BatchReport

/-! ## 2. Batches -/

/-- A build, what compiles for it, and how many scripts it compiles at once. -/
structure Precompiler where
  layout : BuildLayout
  compiler : Compiler
  workers : Nat

/-- The name of the scope at the root of a session. -/
def rootScopeName : String := "core-and-plugins"

/-- The name of the scope of a batch. -/
def batchScopeName : String := "pre-compiled-scripts"

namespace Precompiler

variable (p : Precompiler)

/-- Compiles one script and writes its adapter. -/
def compileScript (scope : Nat) (s : Script) : Attempt BuildError ScriptSuccess := do
  let compiled ← p.layout.cache.compileScript p.compiler s scope
  let adapter := Adapter.ofScript s compiled.preamble compiled.body
  let path ← adapter.generate p.layout.adapters
  return ⟨adapter, path, compiled.recompiled⟩

/-- The report on one script: its refusal, or what becomes of it. -/
def reportOn (scope : Nat) : Script × Option BuildError → Job ScriptReport
  | (s, some e) => return ⟨s.id, .error e⟩
  | (s, none) => return ⟨s.id, ← (p.compileScript scope s).run⟩

/-- How many scripts are compiled at once: no more than there are, and at least one.  Zero asks for
as many as possible. -/
def workersFor (pending : Nat) : Nat :=
  let most := max pending 1
  if p.workers = 0 then most else min p.workers most

/-- Makes the directories for what is packaged anew. -/
def resetOutput : Attempt BuildError Unit := do
  resetDirectory p.layout.outputClasses
  resetDirectory p.layout.adapters

/-- Reports how a batch ended. -/
def reportEnd (r : BatchReport) : Attempt BuildError Unit := do
  for (id, e) in r.failures do Attempt.report (.scriptFailed id e.message)
  let failed := r.failures.length
  Attempt.report (.batchFinished (r.scripts.length - failed) failed r.packagedFiles)

/-- What comes before any script of a batch: its scope, and room for what it packages. -/
def opening (root : Nat) (scripts : List Script) : Attempt BuildError Nat := do
  let scope ← Attempt.adapt .scope (Attempt.newScope root batchScopeName)
  Attempt.perform .openRegister
  p.resetOutput
  let pending := (Owners.review [] scripts).countP (·.2.isNone)
  let path ← Attempt.of (((← Attempt.scopes).path scope).mapError .scope)
  Attempt.report (.batchStarted scripts.length (p.workersFor pending) path)
  return scope

/-- What comes after all scripts of a batch: its scope is locked and what was compiled is
packaged. -/
def closing (scope : Nat) (reports : List ScriptReport) : Attempt BuildError BatchReport := do
  Attempt.adapt .scope (Attempt.lockScope scope)
  let dirs := sortedDirectories (← Attempt.observe).registered
  let packaged ← package dirs p.layout.cache.metadataRoot p.layout.outputClasses
  let report : BatchReport := ⟨reports, scope, packaged⟩
  reportEnd report
  return report

/-- Compiles a batch below a scope. -/
def compileScripts (root : Nat) (scripts : List Script) : Attempt BuildError BatchReport := do
  let scope ← p.opening root scripts
  -- A script that fails answers a report, so the batch goes on.
  let reports ← ExceptT.lift ((Owners.review [] scripts).mapM (p.reportOn scope))
  p.closing scope reports

/-- Makes the roots of the cache and then compiles a batch. -/
def precompile (root : Nat) (scripts : List Script) : Attempt BuildError BatchReport := do
  p.layout.cache.create
  p.compileScripts root scripts

end Precompiler

end ScriptPlugins
