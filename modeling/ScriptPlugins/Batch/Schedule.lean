import ScriptPlugins.Batch.Run
import ScriptPlugins.Job.Pool

/-!
# Schedules — a batch whose scripts are compiled by several workers

The scripts that are not refused go into a pool.  Results come in any order and are brought back
into that of the scripts by their numbers.
-/

namespace ScriptPlugins

/-- A batch with the place of each script in it, from some number on. -/
abbrev Reviewed := List (Script × Option BuildError)

/-- What is known of a script before it is compiled, or after. -/
abbrev ScriptResult := Except BuildError ScriptSuccess

namespace Reviewed

variable (rs : Reviewed)

/-- The scripts that are not refused, with their places. -/
def accepted (k : Nat) : List (Nat × Script) :=
  (rs.zipIdx k).filterMap fun ((s, e), i) => if e.isNone then some (i, s) else none

/-- The refusals, with the places of the scripts. -/
def refusals (k : Nat) : List (Nat × ScriptResult) :=
  (rs.zipIdx k).filterMap fun ((_, e), i) => e.map fun e => (i, .error e)

end Reviewed

/-- The reports on scripts from the results with their places. -/
def reportsOf (scripts : List Script) (results : List (Nat × ScriptResult)) : List ScriptReport :=
  scripts.zipWith (fun s r => ⟨s.id, r.2⟩) (results.mergeSort fun a b => a.1 ≤ b.1)

namespace Precompiler

variable (p : Precompiler)

/-- The jobs of a batch. -/
def jobs (scope : Nat) (accepted : List (Nat × Script)) : List (Nat × Job ScriptResult) :=
  accepted.map fun (i, s) => (i, (p.compileScript scope s).run)

/-- What may come of a batch, and the world then, if its workers take turns in any order. -/
inductive Schedules (root : Nat) (scripts : List Script) (w : World) :
    Except BuildError BatchReport → World → Prop
  | refused {e : BuildError} {w' : World}
      (h : Job.run (p.opening root scripts).run w = (.error e, w')) :
      Schedules root scripts w (.error e) w'
  | finished {scope : Nat} {w₀ : World} {q : Pool ScriptResult}
      (hopen : Job.run (p.opening root scripts).run w = (.ok scope, w₀))
      (hsteps : Pool.Steps (p.workersFor (Reviewed.accepted (Owners.review [] scripts) 0).length)
        (.queue (p.jobs scope (Reviewed.accepted (Owners.review [] scripts) 0)) w₀) q)
      (hover : q.IsOver) :
      Schedules root scripts w
        (Job.run (p.closing scope (reportsOf scripts
          (Reviewed.refusals (Owners.review [] scripts) 0 ++ q.finished))).run q.world).1
        (Job.run (p.closing scope (reportsOf scripts
          (Reviewed.refusals (Owners.review [] scripts) 0 ++ q.finished))).run q.world).2

end Precompiler

end ScriptPlugins
