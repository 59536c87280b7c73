import ScriptPlugins.Log.Event
import ScriptPlugins.Scope.Tree
import ScriptPlugins.Target.Basic

/-!
# Execution — what the phases of a script do to a target

A preamble collects its plugin requests and then hands them over to be applied; a body acts step by
step.  What was done before a failure stays done.
-/

namespace ScriptPlugins

/-! ## 1. Failures -/

/-- Why a run fails. -/
inductive RunError where
  | alreadyRun
  | missingPluginManager (target : String) (kind : ScriptKind)
  | incompatibleClass (className expected found : String)
  | incompatibleTarget (expected found : ScriptKind)
  | execution (className : String) (line : Nat) (reason : String)
  | pluginApplication (cause : PluginError)
  | scope (cause : ScopeError)
  deriving DecidableEq, Repr

namespace RunError

def message : RunError → String
  | alreadyRun => "Script runner has already run"
  | missingPluginManager target kind =>
    "Target '" ++ target ++ "' (" ++ kind.name ++
      ") has no plugin manager, cannot apply requested plugins"
  | incompatibleClass className expected found =>
    "Class '" ++ className ++ "' was compiled as " ++ found ++ ", expected " ++ expected
  | incompatibleTarget expected found =>
    "Script for " ++ expected.name ++ " targets cannot be applied to a " ++ found.name ++ " target"
  | execution className line reason =>
    className ++ ", line " ++ toString line ++ ": " ++ reason
  | pluginApplication cause => "Failed to apply requested plugins: " ++ cause.message
  | scope cause => cause.message

/-- The messages of an error and of what caused it. -/
def chain : RunError → List String
  | pluginApplication cause => [(pluginApplication cause).message, cause.message]
  | scope cause => cause.chain
  | e => [e.message]

end RunError

/-! ## 2. The state of an execution -/

/-- Requests that were handed over to be applied, and for which target. -/
structure Handover where
  requests : List PluginRequest
  target : String
  deriving DecidableEq, Repr

/-- A target under configuration, the requests handed over so far, and what was reported. -/
structure Execution where
  target : BuildTarget
  handovers : List Handover
  log : List Log.Event

namespace Execution

/-- A target that nothing has been run on. -/
def start (target : BuildTarget) : Execution := ⟨target, [], []⟩

def report (x : Execution) (e : Log.Event) : Execution := { x with log := x.log ++ [e] }

/-- What an execution answers, and its state after it. -/
abbrev Result (ε α : Type) := Except ε α × Execution

/-! ## 3. Plugins -/

/-- Applies a plugin through a manager. -/
def applyPlugin (x : Execution) (m : PluginManager) (id : String) : Result PluginError Bool :=
  let x := if m.has id then x.report (.pluginPresent id) else x
  match x.target.applyPlugin m id with
  | .error e => (.error e, x)
  | .ok (newly, target) => (.ok newly, { x with target })

/-- The first id that is requested a second time. -/
def repeated? (seen : List String) : List PluginRequest → Option String
  | [] => none
  | r :: rs => if r.id ∈ seen then some r.id else repeated? (r.id :: seen) rs

/-- Applies the requests that ask for it, in order. -/
def applyEach (x : Execution) : List PluginRequest → Result PluginError Unit
  | [] => (.ok (), x)
  | r :: rs =>
    if r.apply then
      match x.target.plugins with
      | none => (.error (.noPluginManager r.id), x)
      | some m =>
        match x.applyPlugin m r.id with
        | (.error e, x) => (.error e, x)
        | (.ok newly, x) =>
          applyEach (x.report (.pluginApplied r.id x.target.name r.display newly)) rs
    else applyEach (x.report (.pluginResolved r.id x.target.name)) rs

/-- Applies requests, none of which may repeat an id, applied or not. -/
def applyRequests (x : Execution) (rs : List PluginRequest) : Result PluginError Unit :=
  match repeated? [] rs with
  | some id => (.error (.duplicateRequest id), x)
  | none => x.applyEach rs

/-! ## 4. Steps -/

/-- What a step collects: the requests made so far. -/
abbrev Requests := List PluginRequest

/-- One step of a class. -/
def step (x : Execution) (className : String) (requests : Requests) (s : Step) :
    Result RunError Requests :=
  let x := x.report (.stepRunning className s.line)
  match s.action with
  | .println text => (.ok requests, { x with target := x.target.println text })
  | .setProperty key value => (.ok requests, { x with target := x.target.setProperty key value })
  | .requestPlugin r => (.ok (requests ++ [r]), x)
  | .applyPlugin id =>
    match x.target.plugins with
    | none =>
      (.error (.execution className s.line
        ("cannot apply plugin '" ++ id ++ "': target has no plugins")), x)
    | some m =>
      match x.applyPlugin m id with
      | (.error e, x) => (.error (.execution className s.line e.message), x)
      | (.ok _, x) => (.ok requests, x)

/-- The steps of a class, in order. -/
def steps (x : Execution) (className : String) (requests : Requests) :
    List Step → Result RunError Requests
  | [] => (.ok requests, x)
  | s :: ss =>
    match x.step className requests s with
    | (.error e, x) => (.error e, x)
    | (.ok requests, x) => x.steps className requests ss

/-! ## 5. Phases -/

/-- A class runs only as the phase and for the kind of target that it was compiled for. -/
def admits (x : Execution) (phase : Phase) (c : CompiledClass) : Except RunError Unit :=
  if c.phase ≠ phase ∨ c.kind ≠ x.target.kind then
    .error (.incompatibleClass c.name (phase.describe x.target.kind) c.describe)
  else .ok ()

/-- Runs a preamble and applies the plugins it requests. -/
def preamble (x : Execution) (c : CompiledClass) : Result RunError Unit :=
  match x.target.plugins with
  | none => (.error (.missingPluginManager x.target.name x.target.kind), x)
  | some _ =>
    match x.admits .preamble c with
    | .error e => (.error e, x)
    | .ok () =>
      let x := x.report (.requestsRunning c.name x.target.name)
      match x.steps c.name [] c.steps with
      | (.error e, x) => (.error e, x)
      | (.ok requests, x) =>
        -- The requests are handed over before any of them is looked at.
        let x := { x with handovers := x.handovers ++ [Handover.mk requests x.target.name] }
        match x.applyRequests requests with
        | (.error e, x) => (.error (.pluginApplication e), x)
        | (.ok (), x) => (.ok (), x)

/-- Runs a body. -/
def body (x : Execution) (c : CompiledClass) : Result RunError Unit :=
  match x.admits .body c with
  | .error e => (.error e, x)
  | .ok () =>
    match (x.report (.bodyRunning c.name x.target.name)).steps c.name [] c.steps with
    | (.error e, x) => (.error e, x)
    | (.ok _, x) => (.ok (), x)

/-- A phase that may be absent. -/
def optional (phase : Execution → CompiledClass → Result RunError Unit) (x : Execution) :
    Option CompiledClass → Result RunError Unit
  | none => (.ok (), x)
  | some c => phase x c

/-- Runs both phases, the preamble to its end before the body. -/
def phases (x : Execution) (pre main : Option CompiledClass) : Result RunError Unit :=
  match optional preamble x pre with
  | (.error e, x) => (.error e, x)
  | (.ok (), x) =>
    match optional body x main with
    | (.error e, x) => (.error e, x)
    | (.ok (), x) => (.ok (), x.report (.runCompleted x.target.name))

end Execution

end ScriptPlugins
