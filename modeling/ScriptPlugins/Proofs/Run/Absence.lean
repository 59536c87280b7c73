import ScriptPlugins.Proofs.Run.Failures

/-!
# Absence — a class without steps may as well be absent

A run depends on its target alone, not on what was handed over or reported before.  So leaving out a
class without steps changes neither how a run ends nor what it leaves, if the target has plugins; if
it has none, an absent preamble is what lets the body run.
-/

namespace ScriptPlugins

/-- A class, if it does something. -/
def doing (c : Option CompiledClass) : Option CompiledClass := c.filter fun c => !c.steps.isEmpty

theorem doing_of_steps {c : CompiledClass} (h : c.steps ≠ []) : doing (some c) = some c := by
  simp [doing, Option.filter, h]

theorem doing_of_no_steps {c : CompiledClass} (h : c.steps = []) : doing (some c) = none := by
  simp [doing, Option.filter, h]

theorem of_mem_doing {c : CompiledClass} {o : Option CompiledClass} (h : c ∈ doing o) :
    c ∈ o ∧ c.steps ≠ [] := by
  obtain ⟨hc, hsteps⟩ := Option.filter_eq_some_iff.mp h
  exact ⟨hc, by simpa using hsteps⟩

/-- A class without steps has nothing to lose. -/
theorem phaseSteps_doing (c : Option CompiledClass) : phaseSteps (doing c) = phaseSteps c := by
  cases c with
  | none => rfl
  | some c =>
    by_cases h : c.steps = []
    · rw [doing_of_no_steps h]
      exact h.symm
    · rw [doing_of_steps h]

namespace Execution

variable {x y : Execution} {ε α : Type} {className : String} {requests : Requests}

/-- Two results that end alike and leave the same target. -/
structure Matches (r r' : Result ε α) : Prop where
  ends : r.1 = r'.1
  target : r.2.target = r'.2.target

/-! ## 1. Runs depend on the target alone -/

theorem Matches.cases {r r' : Result ε α} (h : Matches r r') :
    (∃ e x y, r = (.error e, x) ∧ r' = (.error e, y) ∧ x.target = y.target) ∨
      ∃ a x y, r = (.ok a, x) ∧ r' = (.ok a, y) ∧ x.target = y.target := by
  obtain ⟨ends, x⟩ := r
  obtain ⟨ends', y⟩ := r'
  obtain rfl : ends = ends' := h.ends
  cases ends with
  | error e => exact .inl ⟨e, x, y, rfl, rfl, h.target⟩
  | ok a => exact .inr ⟨a, x, y, rfl, rfl, h.target⟩

theorem matches_applyPlugin (h : x.target = y.target) (m : PluginManager) (id : String) :
    Matches (x.applyPlugin m id) (y.applyPlugin m id) := by
  unfold applyPlugin
  generalize hx : (if m.has id then x.report (.pluginPresent id) else x) = x'
  generalize hy : (if m.has id then y.report (.pluginPresent id) else y) = y'
  have ht : x'.target = y'.target := by
    rw [← hx, ← hy]
    split <;> exact h
  simp only [ht]
  cases y'.target.applyPlugin m id with
  | error e => exact ⟨rfl, ht⟩
  | ok r => exact ⟨rfl, rfl⟩

theorem matches_step (h : x.target = y.target) (s : Step) :
    Matches (x.step className requests s) (y.step className requests s) := by
  obtain ⟨line, action⟩ := s
  unfold step
  cases action with
  | println text => exact ⟨rfl, congrArg (·.println text) h⟩
  | setProperty key value => exact ⟨rfl, congrArg (·.setProperty key value) h⟩
  | requestPlugin r => exact ⟨rfl, h⟩
  | applyPlugin id =>
    simp only [report, h]
    cases y.target.plugins with
    | none => exact ⟨rfl, rfl⟩
    | some m =>
      rcases (matches_applyPlugin (x := x.report (.stepRunning className line))
        (y := y.report (.stepRunning className line)) h m id).cases with
        ⟨e, x', y', hx, hy, ht⟩ | ⟨a, x', y', hx, hy, ht⟩
      · simp only [report, h] at hx hy
        simp only [hx, hy]
        exact ⟨rfl, ht⟩
      · simp only [report, h] at hx hy
        simp only [hx, hy]
        exact ⟨rfl, ht⟩

theorem matches_steps (h : x.target = y.target) (ss : List Step) :
    Matches (x.steps className requests ss) (y.steps className requests ss) := by
  induction ss generalizing x y requests with
  | nil => exact ⟨rfl, h⟩
  | cons s ss ih =>
    rw [steps, steps]
    have hstep : Matches (x.step className requests s) (y.step className requests s) :=
      matches_step h s
    rcases hstep.cases with ⟨e, x', y', hx, hy, ht⟩ | ⟨a, x', y', hx, hy, ht⟩
    · rw [hx, hy]
      exact ⟨rfl, ht⟩
    · rw [hx, hy]
      exact ih ht

theorem admits_eq (h : x.target = y.target) (phase : Phase) (c : CompiledClass) :
    x.admits phase c = y.admits phase c := by
  unfold admits
  rw [h]

theorem matches_body (h : x.target = y.target) (c : CompiledClass) :
    Matches (x.body c) (y.body c) := by
  unfold body
  rw [h, admits_eq h]
  cases y.admits .body c with
  | error e => exact ⟨rfl, h⟩
  | ok =>
    have hreport (e : Log.Event) : (x.report e).target = (y.report e).target := h
    have hsteps : Matches ((x.report (.bodyRunning c.name y.target.name)).steps c.name [] c.steps)
        ((y.report (.bodyRunning c.name y.target.name)).steps c.name [] c.steps) :=
      matches_steps (hreport _) c.steps
    rcases hsteps.cases with
      ⟨e, x', y', hx, hy, ht⟩ | ⟨_, x', y', hx, hy, ht⟩
    · simp only [hx, hy]
      exact ⟨rfl, ht⟩
    · simp only [hx, hy]
      exact ⟨rfl, ht⟩

/-! ## 2. Classes without steps -/

theorem preamble_of_no_steps {m : PluginManager} {c : CompiledClass}
    (hm : x.target.plugins = some m) (hfits : x.target.admits .preamble c = true)
    (hsteps : c.steps = []) : ∃ y, x.preamble c = (.ok (), y) ∧ y.target = x.target := by
  unfold preamble
  simp only [hm, admits_eq_ok hfits, hsteps]
  exact ⟨_, rfl, rfl⟩

theorem body_of_no_steps {c : CompiledClass} (hfits : x.target.admits .body c = true)
    (hsteps : c.steps = []) : ∃ y, x.body c = (.ok (), y) ∧ y.target = x.target := by
  unfold body
  simp only [admits_eq_ok hfits, hsteps]
  exact ⟨_, rfl, rfl⟩

variable {pre main : Option CompiledClass}

theorem matches_doing_preamble {m : PluginManager} (hm : x.target.plugins = some m)
    (hfits : ∀ c ∈ pre, x.target.admits .preamble c = true) :
    Matches (optional preamble x (doing pre)) (optional preamble x pre) := by
  cases pre with
  | none => exact ⟨rfl, rfl⟩
  | some c =>
    by_cases hsteps : c.steps = []
    · obtain ⟨y, hy, ht⟩ := preamble_of_no_steps hm (hfits c rfl) hsteps
      rw [doing_of_no_steps hsteps, optional, optional, hy]
      exact ⟨rfl, ht.symm⟩
    · rw [doing_of_steps hsteps]
      exact ⟨rfl, rfl⟩

theorem matches_doing_body (h : x.target = y.target)
    (hfits : ∀ c ∈ main, y.target.admits .body c = true) :
    Matches (optional body x (doing main)) (optional body y main) := by
  cases main with
  | none => exact ⟨rfl, h⟩
  | some c =>
    by_cases hsteps : c.steps = []
    · obtain ⟨y', hy, ht⟩ := body_of_no_steps (hfits c rfl) hsteps
      rw [doing_of_no_steps hsteps, optional, optional, hy]
      exact ⟨rfl, h.trans ht.symm⟩
    · rw [doing_of_steps hsteps]
      exact matches_body h c

/-- **On a target with plugins nobody can tell a class without steps from an absent one.** -/
theorem matches_doing (x : Execution) (hm : x.target.plugins.isSome = true)
    (hpre : ∀ c ∈ pre, x.target.admits .preamble c = true)
    (hmain : ∀ c ∈ main, x.target.admits .body c = true) :
    Matches (x.phases (doing pre) (doing main)) (x.phases pre main) := by
  obtain ⟨m, hm⟩ := Option.isSome_iff_exists.mp hm
  obtain ⟨es, -, htarget⟩ := exists_found_preamble x pre
  unfold phases
  rcases (matches_doing_preamble hm hpre).cases with
    ⟨e, x', y', hx, hy, ht⟩ | ⟨_, x', y', hx, hy, ht⟩
  · rw [hx, hy]
    exact ⟨rfl, ht⟩
  · rw [hy] at htarget
    have hfits : ∀ c ∈ main, y'.target.admits .body c = true := by
      rw [show y'.target = x.target.after es from htarget]
      exact hmain
    rw [hx, hy]
    simp only
    rcases (matches_doing_body ht hfits).cases with
      ⟨e, x'', y'', hx, hy, ht⟩ | ⟨_, x'', y'', hx, hy, ht⟩
    · simp only [hx, hy]
      exact ⟨rfl, ht⟩
    · simp only [hx, hy]
      exact ⟨rfl, ht⟩

/-! ## 3. Targets without plugins -/

/-- A preamble with steps ends the run before anything is done. -/
theorem phases_of_preamble {c : CompiledClass} (hm : x.target.plugins = none)
    (main : Option CompiledClass) :
    x.phases (some c) main = (.error (.missingPluginManager x.target.name x.target.kind), x) := by
  unfold phases optional preamble
  rw [hm]

/-- Without a preamble the missing plugins are never the reason of a failure. -/
theorem phases_none_ne (x : Execution) (hmain : ∀ c ∈ main, x.target.admits .body c = true)
    (target : String) (kind : ScriptKind) :
    (x.phases none main).1 ≠ .error (.missingPluginManager target kind) := by
  intro he
  unfold phases at he
  simp only [optional] at he
  split at he
  next e y hbody =>
    cases he
    obtain ⟨_, _, _, _, _, _, _, he⟩ := error_of_body hmain (congrArg Prod.fst hbody)
    cases he
  next => cases he

end Execution

end ScriptPlugins
