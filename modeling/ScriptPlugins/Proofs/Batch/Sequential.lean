import ScriptPlugins.Proofs.Batch.Places
import ScriptPlugins.Proofs.Job.Pools
import ScriptPlugins.Proofs.Job.Preserving

/-!
# One after the other — the simplest schedule

A batch that compiles its scripts in their order is one schedule among others, whatever its number
of workers.
-/

namespace ScriptPlugins

namespace Precompiler

variable (p : Precompiler) (scope : Nat)

theorem workersFor_pos (n : Nat) : 0 < p.workersFor n := by
  rw [workersFor]
  split <;> omega

/-- The reports of scripts that are compiled in their order are those of their jobs. -/
theorem run_reports (rs : Reviewed) (k : Nat) (w : World) :
    ∃ results, Job.run (rs.mapM (p.reportOn scope)) w =
        ((rs.map Prod.fst).zipWith (fun s r => ⟨s.id, r⟩) results,
          (Job.run (Pool.inTurn (p.jobs scope (Reviewed.accepted rs k))) w).2) ∧
      (Reviewed.refusals rs k ++
        (Job.run (Pool.inTurn (p.jobs scope (Reviewed.accepted rs k))) w).1).Perm
        (numbered k results) := by
  induction rs generalizing k w with
  | nil => exact ⟨[], rfl, .nil⟩
  | cons a rs ih =>
    obtain ⟨s, e⟩ := a
    rw [List.mapM_cons]
    simp only [Job.run_bind, Job.run_pure]
    cases e with
    | some e =>
      obtain ⟨results, hrun, hperm⟩ := ih (k + 1) w
      -- A refused script runs nothing and keeps its number.
      have hreport : Job.run (p.reportOn scope (s, some e)) w = (⟨s.id, .error e⟩, w) := rfl
      rw [hreport, hrun]
      exact ⟨.error e :: results, rfl, hperm.cons _⟩
    | none =>
      have hreport : Job.run (p.reportOn scope (s, none)) w =
          (⟨s.id, (Job.run (p.compileScript scope s).run w).1⟩,
            (Job.run (p.compileScript scope s).run w).2) := by
        rw [reportOn]
        simp only [Job.run_bind, Job.run_pure]
      obtain ⟨results, hrun, hperm⟩ := ih (k + 1) (Job.run (p.compileScript scope s).run w).2
      have hjobs : p.jobs scope (Reviewed.accepted ((s, none) :: rs) k) =
          (k, (p.compileScript scope s).run) :: p.jobs scope (Reviewed.accepted rs (k + 1)) := rfl
      rw [hreport, hjobs, Pool.run_inTurn_cons, hrun]
      exact ⟨(Job.run (p.compileScript scope s).run w).1 :: results, rfl,
        List.perm_middle.trans (hperm.cons _)⟩

/-- **To compile the scripts in their order is a schedule.** -/
theorem schedules_compileScripts (root : Nat) (scripts : List Script) (w : World) :
    p.Schedules root scripts w (Job.run (p.compileScripts root scripts).run w).1
      (Job.run (p.compileScripts root scripts).run w).2 := by
  rcases hopen : Job.run (p.opening root scripts).run w with ⟨e | scope, w₀⟩
  · have hrun : Job.run (p.compileScripts root scripts).run w = (.error e, w₀) :=
      Attempt.run_bind_error hopen
    rw [hrun]
    exact .refused hopen
  · obtain ⟨results, hreports, hperm⟩ := p.run_reports scope (Owners.review [] scripts) 0 w₀
    rw [Owners.map_fst_review] at hreports
    have hsteps := Pool.steps_inTurn
      (p.workersFor_pos (Reviewed.accepted (Owners.review [] scripts) 0).length)
      (p.jobs scope (Reviewed.accepted (Owners.review [] scripts) 0)) [] w₀
    have hrun : Job.run (p.compileScripts root scripts).run w =
        Job.run (p.closing scope (scripts.zipWith (fun s r => ⟨s.id, r⟩) results)).run
          (Job.run (Pool.inTurn
            (p.jobs scope (Reviewed.accepted (Owners.review [] scripts) 0))) w₀).2 := by
      rw [compileScripts, Attempt.run_bind_ok hopen,
        Attempt.run_bind_ok (Attempt.run_lift hreports)]
    have hfinished := Schedules.finished hopen hsteps ⟨rfl, rfl⟩
    rw [List.nil_append, reportsOf_perm hperm] at hfinished
    rw [hrun]
    exact hfinished

end Precompiler

end ScriptPlugins
