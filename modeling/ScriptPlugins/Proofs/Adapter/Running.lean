import ScriptPlugins.Proofs.Run.Absence
import ScriptPlugins.Proofs.Run.Once

/-!
# Adapters on targets of any kind — which classes are run, and where

An invocation runs in a scope made for the run, other targets run in their own.  Either way the run
is that of both phases if the scope of the target is live, and it does not begin if it is not.  The
classes that an adapter names are those of its script that do something.
-/

namespace ScriptPlugins

variable {x : Execution} {pre main : Option CompiledClass} {w : World} {s : Scope}

/-! ## 1. Runners for targets -/

namespace Runner

/-- Runs classes on the target of an execution, with a runner made for it. -/
def runOn (x : Execution) (pre main : Option CompiledClass) :
    Job (Execution.Result RunError Unit) := do
  match ← (forTarget x.target).run with
  | .error e => return (.error e, x)
  | .ok runner => return (← runner.run x pre main).1

/-- A target that is no invocation lends its own scope. -/
theorem run_forTarget_lent {t : BuildTarget} (h : t.kind ≠ .invocation) (w : World) :
    Job.run (forTarget t).run w = (.ok ⟨t.scope, false, .idle⟩, w) := by
  unfold forTarget
  cases hkind : t.kind with
  | project => rfl
  | settings => rfl
  | invocation => exact absurd hkind h

/-- The scope of an invocation gets a new child for the run. -/
theorem run_forTarget_owned {t : BuildTarget} (h : t.kind = .invocation)
    (hs : w.scopes.scope? t.scope = some s) :
    Job.run (forTarget t).run w = (.ok ⟨w.scopes.slots.length, true, .idle⟩, { w with
      scopes := w.scopes.grown t.scope s invocationScopeName
      log := w.log ++ [.scopeCreated invocationScopeName t.scope] }) := by
  unfold forTarget
  rw [h]
  exact Attempt.run_bind_ok (Attempt.run_adapt (Attempt.run_newScope hs invocationScopeName))

theorem run_forTarget_of_gone {t : BuildTarget} (h : t.kind = .invocation)
    (hs : w.scopes.scope? t.scope = none) :
    Job.run (forTarget t).run w = (.error (.scope (.released t.scope)), w) := by
  unfold forTarget
  rw [h]
  exact Attempt.run_bind_error
    (Attempt.run_adapt (Attempt.run_newScope_of_gone hs invocationScopeName))

/-- On a target with a live scope both phases run. -/
theorem run_runOn_of_live (hs : w.scopes.scope? x.target.scope = some s)
    (pre main : Option CompiledClass) :
    (Job.run (runOn x pre main) w).1 =
      ((x.phases pre main).1, { (x.phases pre main).2 with log := [] }) := by
  unfold runOn
  by_cases hkind : x.target.kind = .invocation
  · rw [Job.run_bind, run_forTarget_owned hkind hs]
    simp only
    obtain ⟨scopes, log, hrun, -⟩ := run_of_live (r := ⟨w.scopes.slots.length, true, .idle⟩)
      (w := { w with
        scopes := w.scopes.grown x.target.scope s invocationScopeName
        log := w.log ++ [.scopeCreated invocationScopeName x.target.scope] })
      rfl (ScopeTree.scope?_grown_new hs invocationScopeName) x pre main
    rw [Job.run_bind, hrun]
    rfl
  · rw [Job.run_bind, run_forTarget_lent hkind]
    simp only
    rw [Job.run_bind]
    exact run_project hs x pre main

/-- On a target whose scope is gone nothing runs. -/
theorem run_runOn_of_gone (h : w.scopes.scope? x.target.scope = none)
    (pre main : Option CompiledClass) :
    (Job.run (runOn x pre main) w).1 = (.error (.scope (.released x.target.scope)), x) := by
  unfold runOn
  by_cases hkind : x.target.kind = .invocation
  · rw [Job.run_bind, run_forTarget_of_gone hkind h]
    rfl
  · rw [Job.run_bind, run_forTarget_lent hkind]
    simp only
    rw [Job.run_bind, run_of_gone (r := ⟨x.target.scope, false, .idle⟩) rfl h]
    rfl

end Runner

/-! ## 2. Classes of adapters -/

/-- A unit names its class if the class does something. -/
theorem LoadedUnit.nameIfUsed?_eq {u : LoadedUnit}
    (h : u.runDoesSomething = !u.compiled.steps.isEmpty) :
    u.nameIfUsed? = (doing (some u.compiled)).map CompiledClass.name := by
  unfold nameIfUsed?
  rw [h]
  by_cases hsteps : u.compiled.steps = []
  · rw [doing_of_no_steps hsteps, hsteps]
    rfl
  · rw [doing_of_steps hsteps]
    simp [hsteps]

namespace Adapter

variable {a : Adapter}

theorem resolve_name {t : ScopeTree} {scope : Nat} {c : Option CompiledClass}
    (h : ∀ d ∈ c, t.resolve scope d.name = .ok d) :
    resolve t scope (c.map CompiledClass.name) = .ok c := by
  cases c with
  | none => rfl
  | some d =>
    rw [Option.map_some, resolve, h d rfl]
    rfl

/-- An adapter runs the classes that its target sees under the names it has for them. -/
theorem classes_of_names {t : ScopeTree} {target : BuildTarget} (hkind : target.kind = a.kind)
    (hpre : a.preambleClass = pre.map CompiledClass.name)
    (hmain : a.bodyClass = main.map CompiledClass.name)
    (h : ∀ c ∈ pre.toList ++ main.toList, t.resolve target.scope c.name = .ok c) :
    a.classes t target = .ok (pre, main) := by
  have hfirst : resolve t target.scope (pre.map CompiledClass.name) = .ok pre :=
    resolve_name fun d hd => h d (List.mem_append_left _ (Option.mem_toList.mpr hd))
  have hsecond : resolve t target.scope (main.map CompiledClass.name) = .ok main :=
    resolve_name fun d hd => h d (List.mem_append_right _ (Option.mem_toList.mpr hd))
  unfold classes
  rw [hpre, hmain, hfirst, hsecond, if_neg (not_not_intro hkind)]
  rfl

/-- An adapter that finds its classes runs them. -/
theorem run_execute_of_classes (h : a.classes w.scopes x.target = .ok (pre, main)) :
    Job.run (a.execute x) w = Job.run (Runner.runOn x pre main) w := by
  rw [execute, Job.run_bind, Job.run_perform, Op.perform]
  simp only [h]
  rfl

end Adapter

end ScriptPlugins
