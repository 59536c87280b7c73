import ScriptPlugins.Proofs.Adapter.Running
import ScriptPlugins.Proofs.Scope.Histories

/-!
# The footprint of an adapter — what applying one leaves behind among the scopes

Applying an adapter locks the scope that its target lends, and changes nothing else in the tree of
scopes.  The child that is made for an invocation is released again whatever happened in it.  An
adapter that is not for its target, or that does not see a class it names, does nothing at all.
-/

namespace ScriptPlugins

variable {w : World} {x : Execution} {pre main : Option CompiledClass}

/-! ## 1. Locking what is lent -/

/-- A scope that is locked from now on, if something holds. -/
def Scope.lockedIf (s : Scope) (b : Bool) : Scope := { s with locked := s.locked || b }

@[simp] theorem Scope.lockedIf_false (s : Scope) : s.lockedIf false = s := by
  rw [lockedIf, Bool.or_false]

@[simp] theorem Scope.lockedIf_true (s : Scope) : s.lockedIf true = { s with locked := true } := by
  rw [lockedIf, Bool.or_true]

@[simp] theorem Scope.map_lockedIf_false (s : Option Scope) :
    s.map (fun s => s.lockedIf false) = s := by
  simp

/-- Whether a run on a target happens in that scope itself.  Only invocations get a scope made for
them. -/
def BuildTarget.lends (t : BuildTarget) (id : Nat) : Bool :=
  id == t.scope && t.kind != .invocation

theorem BuildTarget.lends_of_invocation {t : BuildTarget} (h : t.kind = .invocation) (id : Nat) :
    t.lends id = false := by
  simp [lends, h]

theorem BuildTarget.lends_of_ne {t : BuildTarget} {id : Nat} (h : id ≠ t.scope) :
    t.lends id = false := by
  simp [lends, h]

theorem BuildTarget.lends_eq {t : BuildTarget} (h : t.kind ≠ .invocation) (id : Nat) :
    t.lends id = decide (id = t.scope) := by
  simp [lends, h, Bool.beq_eq_decide_eq]

/-! ## 2. Runs on targets -/

namespace Runner

/-- Where the scope of the target is gone, no scope changes. -/
theorem scopes_runOn_of_gone (hs : w.scopes.scope? x.target.scope = none)
    (pre main : Option CompiledClass) :
    ∃ result, Job.run (runOn x pre main) w = (result, w) := by
  unfold runOn
  by_cases hkind : x.target.kind = .invocation
  · rw [Job.run_bind, run_forTarget_of_gone hkind hs]
    exact ⟨_, rfl⟩
  · rw [Job.run_bind, run_forTarget_lent hkind]
    simp only
    rw [Job.run_bind, run_of_gone (r := ⟨x.target.scope, false, .idle⟩) rfl hs]
    exact ⟨_, rfl⟩

/-- The scope that is made for an invocation goes as it came. -/
theorem scopes_runOn_owned {s : Scope} (hsound : w.scopes.Sound)
    (hkind : x.target.kind = .invocation) (hs : w.scopes.scope? x.target.scope = some s)
    (pre main : Option CompiledClass) :
    ∃ result scopes log, Job.run (runOn x pre main) w = (result, { w with scopes, log }) ∧
      ∀ i, scopes.scope? i = w.scopes.scope? i := by
  have hnew := ScopeTree.scope?_grown_new hs invocationScopeName
  obtain ⟨scopes, log, hrun, howned, -⟩ := run_live (r := ⟨w.scopes.slots.length, true, .idle⟩)
    (w := { w with
      scopes := w.scopes.grown x.target.scope s invocationScopeName
      log := w.log ++ [.scopeCreated invocationScopeName x.target.scope] })
    rfl hnew x pre main
  -- Within the run the child is only locked, so it stands where it was put.
  obtain ⟨names, hrelease⟩ := howned rfl
  have hkept := hsound.release_grown hs invocationScopeName
    { Scope.fresh invocationScopeName (some x.target.scope) with locked := true } rfl hrelease
  unfold runOn
  rw [Job.run_bind, run_forTarget_owned hkind hs]
  simp only
  rw [Job.run_bind, hrun]
  exact ⟨_, scopes, log, rfl, hkept⟩

/-- A scope that is lent stays locked. -/
theorem scopes_runOn_lent {s : Scope} (hkind : x.target.kind ≠ .invocation)
    (hs : w.scopes.scope? x.target.scope = some s) (pre main : Option CompiledClass) :
    ∃ result log, Job.run (runOn x pre main) w = (result, { w with
      scopes := w.scopes.set x.target.scope { s with locked := true }
      log }) := by
  obtain ⟨scopes, log, hrun, -, hlent⟩ := run_live (r := ⟨x.target.scope, false, .idle⟩)
    rfl hs x pre main
  obtain rfl := hlent rfl
  unfold runOn
  rw [Job.run_bind, run_forTarget_lent hkind]
  simp only
  rw [Job.run_bind, hrun]
  exact ⟨_, log, rfl⟩

/-- A run on a target leaves every scope as it was, but that a scope which the target lends is
locked. -/
theorem scopes_runOn (hsound : w.scopes.Sound) (x : Execution) (pre main : Option CompiledClass) :
    ∃ result scopes log, Job.run (runOn x pre main) w = (result, { w with scopes, log }) ∧
      ∀ i, scopes.scope? i = (w.scopes.scope? i).map fun s => s.lockedIf (x.target.lends i) := by
  cases hs : w.scopes.scope? x.target.scope with
  | none =>
    obtain ⟨result, hrun⟩ := scopes_runOn_of_gone hs pre main
    refine ⟨result, w.scopes, w.log, hrun, fun i => ?_⟩
    by_cases hi : i = x.target.scope
    · rw [hi, hs]
      rfl
    · rw [BuildTarget.lends_of_ne hi, Scope.map_lockedIf_false]
  | some s =>
    by_cases hkind : x.target.kind = .invocation
    · obtain ⟨result, scopes, log, hrun, hkept⟩ := scopes_runOn_owned hsound hkind hs pre main
      refine ⟨result, scopes, log, hrun, fun i => ?_⟩
      rw [hkept i, BuildTarget.lends_of_invocation hkind, Scope.map_lockedIf_false]
    · obtain ⟨result, log, hrun⟩ := scopes_runOn_lent hkind hs pre main
      refine ⟨result, _, log, hrun, fun i => ?_⟩
      rw [ScopeTree.scope?_set (ScopeTree.lt_of_scope? hs), BuildTarget.lends_eq hkind]
      by_cases hi : i = x.target.scope
      · simp [hi, hs]
      · simp [hi]

end Runner

/-! ## 3. Adapters -/

namespace Adapter

variable {a : Adapter}

/-- The names of the classes that an adapter looks up, in order. -/
def named (a : Adapter) : List String := a.preambleClass.toList ++ a.bodyClass.toList

/-- An adapter is for a target, which sees a class of each name. -/
def Finds (a : Adapter) (t : ScopeTree) (target : BuildTarget) : Prop :=
  target.kind = a.kind ∧ ∀ n ∈ a.named, (t.resolve target.scope n).isOk = true

instance (a : Adapter) (t : ScopeTree) (target : BuildTarget) : Decidable (a.Finds t target) :=
  inferInstanceAs (Decidable (_ ∧ _))

theorem isOk_resolve {t : ScopeTree} {scope : Nat} {name : Option String} :
    (resolve t scope name).isOk = true ↔ ∀ n ∈ name, (t.resolve scope n).isOk = true := by
  cases name with
  | none => exact ⟨fun _ => nofun, fun _ => rfl⟩
  | some n =>
    have hmap : (resolve t scope (some n)).isOk = (t.resolve scope n).isOk := by
      rw [resolve]
      cases t.resolve scope n <;> rfl
    rw [hmap]
    exact ⟨fun h _ hn => Option.some.inj hn ▸ h, fun h => h n rfl⟩

/-- An adapter has classes to run exactly if it finds them. -/
theorem isOk_classes {t : ScopeTree} {target : BuildTarget} :
    (a.classes t target).isOk = true ↔ a.Finds t target := by
  have hparts : (a.classes t target).isOk = (decide (target.kind = a.kind) &&
      ((resolve t target.scope a.preambleClass).isOk &&
        (resolve t target.scope a.bodyClass).isOk)) := by
    unfold classes
    by_cases hkind : target.kind = a.kind
    · rw [if_neg (not_not_intro hkind), decide_eq_true hkind]
      cases resolve t target.scope a.preambleClass <;>
        cases resolve t target.scope a.bodyClass <;> rfl
    · rw [if_pos hkind, decide_eq_false hkind]
      rfl
  rw [hparts, Bool.and_eq_true, Bool.and_eq_true, isOk_resolve, isOk_resolve, decide_eq_true_eq,
    Finds, named]
  simp only [List.mem_append, Option.mem_toList, or_imp, forall_and, Option.mem_def]

/-- An adapter that does not find its classes refuses before anything happens. -/
theorem run_execute_of_not_finds (h : ¬a.Finds w.scopes x.target) :
    ∃ cause, Job.run (a.execute x) w = ((.error cause, x), w) := by
  obtain ⟨cause, hclasses⟩ := exists_error (Bool.eq_false_iff.mpr (isOk_classes.not.mpr h))
  refine ⟨cause, ?_⟩
  rw [execute, Job.run_bind, Job.run_perform, Op.perform]
  simp only [hclasses]
  rfl

/-- What an adapter does to the scopes, by whether it finds its classes. -/
theorem scopes_execute (hsound : w.scopes.Sound) (a : Adapter) (x : Execution) :
    ∃ result x' scopes log,
      Job.run (a.execute x) w = ((result, x'), { w with scopes, log }) ∧
      (∀ i, scopes.scope? i = (w.scopes.scope? i).map fun s =>
        s.lockedIf (x.target.lends i && decide (a.Finds w.scopes x.target))) ∧
      (¬a.Finds w.scopes x.target → scopes = w.scopes ∧ x' = x ∧ result.isOk = false) := by
  by_cases hfinds : a.Finds w.scopes x.target
  · obtain ⟨⟨pre, main⟩, hclasses⟩ := exists_ok (isOk_classes.mpr hfinds)
    obtain ⟨⟨result, x'⟩, scopes, log, hrun, hscopes⟩ := Runner.scopes_runOn hsound x pre main
    refine ⟨result, x', scopes, log, (run_execute_of_classes hclasses).trans hrun, fun i => ?_,
      fun hnot => absurd hfinds hnot⟩
    rw [hscopes i, decide_eq_true hfinds, Bool.and_true]
  · obtain ⟨cause, hrun⟩ := run_execute_of_not_finds hfinds
    refine ⟨.error cause, x, w.scopes, w.log, hrun, fun i => ?_, fun _ => ⟨rfl, rfl, rfl⟩⟩
    rw [decide_eq_false hfinds, Bool.and_false, Scope.map_lockedIf_false]

/-- **Applying an adapter has a fixed footprint.**  Whatever was done to a tree of scopes before,
and wherever the application fails, afterwards exactly the scopes are live that were, each as it
was; but the target's own scope is locked if the target is no invocation and the adapter finds its
classes.  If it does not find them, which is so if it is for targets of another kind or if a class
it names is not visible to the target, it fails and the target, like the tree, is left alone.  Every
failure names the script. -/
theorem apply_footprint (a : Adapter) (x : Execution) (w : World) (name : String)
    (calls : List ScopeTree.Call) :
    let t := (ScopeTree.root name).afterAll calls
    ∃ result x' scopes log,
      Job.run (a.apply x) { w with scopes := t } = ((result, x'), { w with scopes, log }) ∧
      (∀ i, scopes.scope? i = (t.scope? i).map fun s =>
        s.lockedIf (x.target.lends i && decide (a.Finds t x.target))) ∧
      (¬a.Finds t x.target → scopes = t ∧ x' = x ∧ result.isOk = false) ∧
      ∀ failure, result = .error failure → failure.scriptId = a.scriptId := by
  intro t
  have hsound : t.Sound := (ScopeTree.sound_root name).afterAll calls
  let w₁ : World := { w with
    scopes := t
    log := w.log ++ [.adapterApplying a.scriptId x.target.name] }
  have hreport :
      Job.run (discard <| Job.perform (.report (.adapterApplying a.scriptId x.target.name)))
      { w with scopes := t } = ((), w₁) := rfl
  obtain ⟨result, x', scopes, log, hrun, hscopes, hnot⟩ := scopes_execute (w := w₁) hsound a x
  rw [apply, Job.run_bind, hreport, Job.run_bind, hrun]
  cases result with
  | ok u =>
    refine ⟨.ok (), x', scopes, log, rfl, hscopes, hnot, fun failure h => ?_⟩
    cases h
  | error cause =>
    refine ⟨.error ⟨a.scriptId, cause⟩, x', scopes, _, rfl, hscopes, fun hn => ?_, ?_⟩
    · obtain ⟨hs, hx, -⟩ := hnot hn
      exact ⟨hs, hx, rfl⟩
    · intro failure h
      cases h
      rfl

end Adapter

end ScriptPlugins
