import ScriptPlugins.Adapter.Apply
import ScriptPlugins.Proofs.Job.Preserving
import ScriptPlugins.Proofs.Run.Effects

/-!
# Adapters on projects — applying one runs its classes

A project has a scope of its own, which is locked by the run.  Once both classes are found there,
applying an adapter does what running them does.
-/

namespace ScriptPlugins

variable {x : Execution} {pre main : Option CompiledClass} {w : World} {s : Scope}
  {known : List String}

/-! ## 1. Runners -/

/-- What an execution has reported is reported, and nothing else happens. -/
theorem Execution.run_deliver (x : Execution) (w : World) :
    ∃ log, Job.run x.deliver w = ({ x with log := [] }, { w with log }) := by
  have hreports (es : List Log.Event) (w : World) :
      ∃ log, Job.run (ForIn.forIn es PUnit.unit fun e _ =>
        (do discard <| Job.perform (.report e); return ForInStep.yield PUnit.unit : Job _)) w =
        (PUnit.unit, { w with log }) := by
    induction es generalizing w with
    | nil => exact ⟨w.log, rfl⟩
    | cons e es ih =>
      obtain ⟨log, hrun⟩ := ih { w with log := w.log ++ [e] }
      refine ⟨log, ?_⟩
      rw [List.forIn_cons]
      exact hrun
  obtain ⟨log, hrun⟩ := hreports x.log w
  refine ⟨log, ?_⟩
  rw [deliver, Job.run_bind]
  exact congrArg (fun r => Job.run (pure { x with log := [] }) r.2) hrun

namespace Runner

/-- Both phases run in a live scope, which is locked before. -/
theorem run_execute {r : Runner} (hs : w.scopes.scope? r.scope = some s) (x : Execution)
    (pre main : Option CompiledClass) :
    ∃ log, Job.run (r.execute x pre main) w =
      (((x.phases pre main).1, { (x.phases pre main).2 with log := [] }), { w with
        scopes := w.scopes.set r.scope { s with locked := true }
        log }) := by
  obtain ⟨log, hdeliver⟩ := (x.phases pre main).2.run_deliver
    { w with
      scopes := w.scopes.set r.scope { s with locked := true }
      log := if s.locked then w.log else w.log ++ [.scopeLocked s.name] }
  refine ⟨log, ?_⟩
  rw [execute, Job.run_bind, Attempt.run_lockScope_of_live hs]
  simp only
  rw [Job.run_bind, hdeliver]
  rfl

/-- A runner of a project runs both phases; it has no scope to release. -/
theorem run_project {scope : Nat} (hs : w.scopes.scope? scope = some s) (x : Execution)
    (pre main : Option CompiledClass) :
    (Job.run (Runner.run ⟨scope, false, .idle⟩ x pre main) w).1.1 =
      ((x.phases pre main).1, { (x.phases pre main).2 with log := [] }) := by
  obtain ⟨log, hexecute⟩ := run_execute (r := ⟨scope, false, .idle⟩) hs x pre main
  have hidle : ¬RunState.idle ≠ RunState.idle := fun h => h rfl
  rw [Runner.run, if_neg hidle, Job.run_bind, hexecute]
  rcases (x.phases pre main).1 with err | ⟨⟩ <;> rfl

end Runner

/-! ## 2. Adapters -/

namespace Adapter

variable {a : Adapter}

/-- An adapter runs the classes that it finds in the scope of a project. -/
theorem run_execute_project (hkind : x.target.kind = .project)
    (hclasses : a.classes w.scopes x.target = .ok (pre, main))
    (hs : w.scopes.scope? x.target.scope = some s) :
    (Job.run (a.execute x) w).1 =
      ((x.phases pre main).1, { (x.phases pre main).2 with log := [] }) := by
  have hrunner : Job.run (Runner.forTarget x.target).run w =
      (.ok ⟨x.target.scope, false, .idle⟩, w) := by
    rw [Runner.forTarget, hkind]
    rfl
  rw [execute, Job.run_bind, Job.run_perform, Op.perform]
  simp only [hclasses]
  rw [Job.run_bind, hrunner]
  simp only
  rw [Job.run_bind]
  exact Runner.run_project hs x pre main

/-- **Applying an adapter to a project does what its classes do.** -/
theorem agrees_apply {o : Effects.Outcome} (hkind : x.target.kind = .project)
    (hclasses : a.classes w.scopes x.target = .ok (pre, main))
    (hs : w.scopes.scope? x.target.scope = some s)
    (h : Execution.Agrees known (x.phases pre main) o) :
    ∃ result w', Job.run (a.apply x) w = (result, w') ∧ Execution.Agrees known result o := by
  let w₁ : World := { w with log := w.log ++ [.adapterApplying a.scriptId x.target.name] }
  have hexecute : (Job.run (a.execute x) w₁).1 = _ := run_execute_project hkind hclasses hs
  have hreport :
      Job.run (discard <| Job.perform (.report (.adapterApplying a.scriptId x.target.name)))
      w = ((), w₁) := rfl
  refine ⟨(Job.run (a.apply x) w).1, (Job.run (a.apply x) w).2, rfl, ?_⟩
  rw [apply, Job.run_bind, hreport, Job.run_bind, hexecute]
  rcases h.cases with ⟨err, x', id, e, hx, rfl, hshows⟩ | ⟨_, x', e, hx, rfl, hshows⟩ <;> rw [hx]
  · exact ⟨rfl, hshows.of_target rfl⟩
  · exact ⟨rfl, hshows.of_target rfl⟩

end Adapter

end ScriptPlugins
