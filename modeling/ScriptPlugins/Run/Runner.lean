import ScriptPlugins.Job.Scopes
import ScriptPlugins.Run.Execution

/-!
# Runners — one run of a script on a target

A runner is made for one target and runs once.  It locks the scope that the run happens in before
anything else.  For an invocation that scope is a child of the target's own, made for the run and
released after it.
-/

namespace ScriptPlugins

/-- How far a runner has come. -/
inductive RunState where
  | idle
  | completed
  | failed
  deriving DecidableEq, Repr

structure Runner where
  scope : Nat
  /-- Whether the scope was made for this run. -/
  ownsScope : Bool
  state : RunState
  deriving DecidableEq, Repr

/-- Reports what an execution has reported so far. -/
def Execution.deliver (x : Execution) : Job Execution := do
  for e in x.log do discard <| Job.perform (.report e)
  return { x with log := [] }

namespace Runner

/-- The name of the scope that is made for the run of an invocation. -/
def invocationScopeName : String := "init-plugin"

/-- A runner for a target. -/
def forTarget (t : BuildTarget) : Attempt RunError Runner :=
  match t.kind with
  | .invocation => do
    let scope ← Attempt.adapt .scope (Attempt.newScope t.scope invocationScopeName)
    return ⟨scope, true, .idle⟩
  | .project | .settings => return ⟨t.scope, false, .idle⟩

/-- Locks the scope and runs both phases. -/
def execute (r : Runner) (x : Execution) (pre main : Option CompiledClass) :
    Job (Execution.Result RunError Unit) := do
  match ← (Attempt.lockScope r.scope).run with
  | .error e => return (.error (.scope e), x)
  | .ok () =>
    let (result, x) := x.phases pre main
    return (result, ← x.deliver)

/-- Releases the scope if it was made for the run. -/
def finish (r : Runner) : Job (Except RunError Unit) :=
  if r.ownsScope then (Attempt.adapt .scope (Attempt.releaseScope r.scope)).run
  else return .ok ()

/-- Runs both phases of a script, unless the runner has run before.  The failure of the run goes
before a failure to release the scope. -/
def run (r : Runner) (x : Execution) (pre main : Option CompiledClass) :
    Job (Execution.Result RunError Unit × Runner) := do
  if r.state ≠ .idle then return ((.error .alreadyRun, x), r)
  let (result, x) ← r.execute x pre main
  -- A scope of the runner's own goes away in every case.
  let released ← r.finish
  let result := result.bind fun () => released
  let state := if result.isOk then RunState.completed else .failed
  return ((result, x), { r with state })

end Runner

end ScriptPlugins
