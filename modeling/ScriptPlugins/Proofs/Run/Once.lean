import ScriptPlugins.Proofs.Run.Adapters
import ScriptPlugins.Proofs.Run.Courses

/-!
# Once — a runner runs once, in order, and takes nothing back

A runner does the steps of the preamble, then applies what they requested, then does the steps of
the body.  It goes no further than the first thing that cannot be done, and what it did before stays
in the journal of the target.  Whoever asks it to run again is refused, and nothing changes.
-/

namespace ScriptPlugins.Runner

variable {r : Runner} {x : Execution} {w : World} {s : Scope} {pre main : Option CompiledClass}

/-! ## 1. The first run -/

/-- A runner releases a scope of its own, and no other. -/
theorem run_finish (hs : w.scopes.scope? r.scope = some s) :
    ∃ scopes log, Job.run r.finish w = (.ok (), { w with scopes, log }) ∧
      (r.ownsScope = true → ∃ names, w.scopes.release r.scope = .ok (names, scopes)) ∧
      (r.ownsScope = false → scopes = w.scopes) := by
  unfold finish
  cases r.ownsScope with
  | false => exact ⟨w.scopes, w.log, rfl, nofun, fun _ => rfl⟩
  | true =>
    obtain ⟨names, scopes, hrelease, hrun⟩ := Attempt.run_releaseScope hs
    exact ⟨scopes, _, Attempt.run_adapt hrun, fun _ => ⟨names, hrelease⟩, nofun⟩

/-- In a live scope a run is both phases.  The scope is locked before and, if it is the runner's
own, released after. -/
theorem run_live (hidle : r.state = .idle) (hs : w.scopes.scope? r.scope = some s)
    (x : Execution) (pre main : Option CompiledClass) :
    ∃ scopes log, Job.run (r.run x pre main) w =
        ((((x.phases pre main).1, { (x.phases pre main).2 with log := [] }),
          { r with state := if (x.phases pre main).1.isOk then .completed else .failed }),
          { w with scopes, log }) ∧
      let locked := w.scopes.set r.scope { s with locked := true }
      (r.ownsScope = true → ∃ names, locked.release r.scope = .ok (names, scopes)) ∧
      (r.ownsScope = false → scopes = locked) := by
  obtain ⟨log, hexecute⟩ := run_execute hs x pre main
  have hlocked : (w.scopes.set r.scope { s with locked := true }).scope? r.scope =
      some { s with locked := true } := by
    rw [ScopeTree.scope?_set (ScopeTree.lt_of_scope? hs), if_pos rfl]
  obtain ⟨scopes, log', hfinish, howned, hlent⟩ := run_finish
    (w := { w with scopes := w.scopes.set r.scope { s with locked := true }, log }) hlocked
  refine ⟨scopes, log', ?_, howned, hlent⟩
  unfold run
  rw [if_neg (not_not_intro hidle), Job.run_bind, hexecute]
  simp only
  rw [Job.run_bind, hfinish]
  -- The scope is released whether the phases succeed or not.
  cases (x.phases pre main).1 <;> rfl

/-- After the run a scope of the runner's own is gone, and a scope that it was lent is locked. -/
theorem run_of_live (hidle : r.state = .idle) (hs : w.scopes.scope? r.scope = some s)
    (x : Execution) (pre main : Option CompiledClass) :
    ∃ scopes log, Job.run (r.run x pre main) w =
        ((((x.phases pre main).1, { (x.phases pre main).2 with log := [] }),
          { r with state := if (x.phases pre main).1.isOk then .completed else .failed }),
          { w with scopes, log }) ∧
      (r.ownsScope = true → scopes.scope? r.scope = none) ∧
      (r.ownsScope = false → ∃ s', scopes.scope? r.scope = some s' ∧ s'.locked = true) := by
  obtain ⟨scopes, log, hrun, howned, hlent⟩ := run_live hidle hs x pre main
  have hlocked : (w.scopes.set r.scope { s with locked := true }).scope? r.scope =
      some { s with locked := true } := by
    rw [ScopeTree.scope?_set (ScopeTree.lt_of_scope? hs), if_pos rfl]
  refine ⟨scopes, log, hrun, fun h => ?_, fun h => ⟨_, hlent h ▸ hlocked, rfl⟩⟩
  obtain ⟨names, hrelease⟩ := howned h
  exact ScopeTree.scope?_of_release hlocked hrelease

/-- Without its scope a runner does nothing. -/
theorem run_of_gone (hidle : r.state = .idle) (h : w.scopes.scope? r.scope = none) (x : Execution)
    (pre main : Option CompiledClass) : Job.run (r.run x pre main) w =
      (((.error (.scope (.released r.scope)), x), { r with state := .failed }), w) := by
  have hexecute : Job.run (r.execute x pre main) w =
      ((.error (.scope (.released r.scope)), x), w) := by
    rw [execute, Job.run_bind, Attempt.run_lockScope_of_gone h]
    rfl
  have hfinish : ∃ released, Job.run r.finish w = (released, w) := by
    unfold finish
    cases r.ownsScope with
    | false => exact ⟨.ok (), rfl⟩
    | true => exact ⟨_, Attempt.run_adapt (Attempt.run_releaseScope_of_gone h)⟩
  obtain ⟨released, hfinish⟩ := hfinish
  unfold run
  rw [if_neg (not_not_intro hidle), Job.run_bind, hexecute]
  simp only
  rw [Job.run_bind, hfinish]
  rfl

/-! ## 2. Later runs -/

/-- Runs of one runner, one after the other. -/
def runAll (r : Runner) (x : Execution) : List (Option CompiledClass × Option CompiledClass) →
    Job (List (Except RunError Unit) × Execution × Runner)
  | [] => return ([], x, r)
  | (pre, main) :: rest => do
    let ((result, x), r) ← r.run x pre main
    let (results, x, r) ← r.runAll x rest
    return (result :: results, x, r)

/-- A runner that has run refuses, and leaves everything as it is. -/
theorem run_again (h : r.state ≠ .idle) (x : Execution)
    (pre main : Option CompiledClass) (w : World) :
    Job.run (r.run x pre main) w = (((.error .alreadyRun, x), r), w) := by
  unfold run
  rw [if_pos h]
  rfl

theorem runAll_again (h : r.state ≠ .idle) (x : Execution)
    (calls : List (Option CompiledClass × Option CompiledClass)) (w : World) :
    Job.run (r.runAll x calls) w = ((calls.map fun _ => .error .alreadyRun, x, r), w) := by
  induction calls with
  | nil => rfl
  | cons call calls ih =>
    obtain ⟨pre, main⟩ := call
    unfold runAll
    rw [Job.run_bind, run_again h]
    simp only
    rw [Job.run_bind, ih]
    rfl

/-- What a runner leaves after the first run is left after all others. -/
theorem runAll_eq {result : Except RunError Unit} {x' : Execution} {r' : Runner} {w' : World}
    (h : Job.run (r.run x pre main) w = (((result, x'), r'), w')) (hdone : r'.state ≠ .idle)
    (later : List (Option CompiledClass × Option CompiledClass)) :
    Job.run (r.runAll x ((pre, main) :: later)) w =
      ((result :: later.map fun _ => .error .alreadyRun, x', r'), w') := by
  unfold runAll
  rw [Job.run_bind, h]
  simp only
  rw [Job.run_bind, runAll_again hdone]
  rfl

/-! ## 3. All runs -/

/-- **A runner runs once, in order, and takes nothing back.**  The first run appends to the journal
what the preamble does, then what it requested, then what the body does, each as far as the target
allows and none before all that comes first is done.  It succeeds if all of it is done, and whatever
it did stays.  All later runs are refused and change nothing. -/
theorem runs_once (hidle : r.state = .idle) (x : Execution) (pre main : Option CompiledClass)
    (w : World) :
    let t := x.target
    let c := if w.scopes.isLive r.scope then t.course pre main else .nothing
    let P := t.eventsOf c.ran
    let R := (t.after P).newly c.applied
    let B := (t.after (P ++ R)).eventsOf c.acted
    (c.ran <+: phaseSteps pre ∧ c.applied <+: toApply (phaseRequests pre) ∧
      c.acted <+: phaseSteps main) ∧
    ∃ result x' state w',
      Job.run (r.run x pre main) w = (((result, x'), { r with state }), w') ∧
      x'.target = t.after (P ++ R ++ B) ∧ x'.target.journal = t.journal ++ (P ++ R ++ B) ∧
      (B ≠ [] → c.ran = phaseSteps pre ∧
        ∀ id ∈ toApply (phaseRequests pre), id ∈ x'.target.applied) ∧
      result.isOk = c.whole ∧
      (c.whole = true → c.ran = phaseSteps pre ∧ c.applied = toApply (phaseRequests pre) ∧
        c.acted = phaseSteps main) ∧
      state = (if result.isOk then .completed else .failed) ∧
      (w.scopes.isLive r.scope = true →
        if r.ownsScope then w'.scopes.scope? r.scope = none
        else ∃ s, w'.scopes.scope? r.scope = some s ∧ s.locked = true) ∧
      ∀ later, Job.run (r.runAll x ((pre, main) :: later)) w =
        ((result :: later.map fun _ => .error .alreadyRun, x', { r with state }), w') := by
  intro t c P R B
  cases hlive : w.scopes.isLive r.scope with
  | false =>
    -- A scope that is gone cannot be locked, and the run ends there.
    have hgone : w.scopes.scope? r.scope = none :=
      Option.not_isSome_iff_eq_none.mp (Bool.eq_false_iff.mp hlive)
    have hrun := run_of_gone hidle hgone x pre main
    have hc : c = .nothing := if_neg (Bool.eq_false_iff.mp hlive)
    clear_value c
    subst hc
    exact ⟨⟨List.nil_prefix, List.nil_prefix, List.nil_prefix⟩, _, x, _, w, hrun,
      (BuildTarget.after_nil t).symm, (List.append_nil _).symm, fun h => absurd rfl h,
        rfl, nofun, rfl,
      nofun, runAll_eq hrun nofun⟩
  | true =>
    obtain ⟨s, hs⟩ := Option.isSome_iff_exists.mp hlive
    obtain ⟨scopes, log, hrun, howned, hlent⟩ := run_of_live hidle hs x pre main
    have hc : c = t.course pre main := if_pos hlive
    clear_value c
    subst hc
    have hleaves : Execution.Leaves (x.phases pre main) (t.course pre main).whole
        (t.after (P ++ R ++ B)) := Execution.leaves_phases x pre main
    have hdone : (if (x.phases pre main).1.isOk then RunState.completed else .failed) ≠ .idle := by
      split <;> exact nofun
    refine ⟨t.prefix_course pre main, _, _, _, _, hrun, hleaves.target,
      congrArg BuildTarget.journal hleaves.target, fun hB => ?_, hleaves.ends,
      BuildTarget.course_of_whole, rfl, fun _ => ?_, runAll_eq hrun hdone⟩
    · -- What the body records it records by a step, and then all that comes first is done.
      have hacted : (t.course pre main).acted ≠ [] := fun h =>
        hB (by simp only [B, h, BuildTarget.eventsOf])
      obtain ⟨hran, happlied⟩ := BuildTarget.course_of_acted hacted
      refine ⟨hran, fun id hid => ?_⟩
      rw [hleaves.target]
      exact BuildTarget.mem_applied_course (happlied ▸ hid) B
    · split
      next h => exact howned h
      next h => exact hlent (Bool.eq_false_iff.mpr h)

/-- The theorem for a run that fails at its second request, so that its body does nothing. -/
theorem runs_once_refused :
    let r : Runner := ⟨0, false, .idle⟩
    let t : BuildTarget := .fresh .project "app" 0 ["java"]
    let pre : CompiledClass := ⟨"pre", .preamble, .project, [⟨1, .println "plugins"⟩,
      ⟨2, .requestPlugin ⟨"java", none, true⟩⟩, ⟨3, .requestPlugin ⟨"go", none, true⟩⟩]⟩
    let main : CompiledClass := ⟨"main", .body, .project, [⟨4, .println "done"⟩]⟩
    let w : World := ⟨.empty [], .root "core", [], [], .sinceEpoch 0⟩
    r.state = .idle ∧ ∃ result x' w',
      Job.run (r.runAll (.start t) [(some pre, some main), (none, some main)]) w =
        (([result, .error .alreadyRun], x', { r with state := .failed }), w') ∧
      result.isOk = false ∧ x'.target.journal = [.console "plugins", .pluginApplied "java"] := by
  intro r t pre main w
  refine ⟨rfl, ?_⟩
  obtain ⟨-, result, x', state, w', -, -, hjournal, -, hok, -, hstate, -, hall⟩ :=
    runs_once (r := r) rfl (.start t) (some pre) (some main) w
  have hfails : result.isOk = false := hok.trans (by decide)
  refine ⟨result, x', w', ?_, hfails, hjournal.trans (by decide)⟩
  rw [hfails] at hstate
  rw [hall [(none, some main)], hstate]
  rfl

end ScriptPlugins.Runner
