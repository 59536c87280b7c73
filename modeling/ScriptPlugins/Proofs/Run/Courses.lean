import Mathlib.Data.List.TakeWhile
import ScriptPlugins.Proofs.Run.Records

/-!
# Courses — how far a run goes

A run does the steps of its preamble, then applies what they requested, then does the steps of its
body.  How far it goes can be told from the target and the two classes before anything is done, and
then the run does just that: each part up to the first thing that the target does not allow, and
none before all that comes first.
-/

namespace ScriptPlugins

/-! ## 1. Phases -/

/-- The steps of a class that may be absent. -/
def phaseSteps (c : Option CompiledClass) : List Step := c.elim [] CompiledClass.steps

/-- What a class that may be absent requests. -/
def phaseRequests (c : Option CompiledClass) : List PluginRequest :=
  (phaseSteps c).filterMap Step.request?

namespace BuildTarget

variable {t : BuildTarget} {es : List TargetEvent}

/-- Whether a class was compiled for a phase and the kind of the target. -/
def admits (t : BuildTarget) (phase : Phase) (c : CompiledClass) : Bool :=
  c.phase = phase && c.kind = t.kind

/-- Whether a class may run as a phase.  A preamble needs a target with plugins. -/
def starts (t : BuildTarget) (phase : Phase) (c : Option CompiledClass) : Bool :=
  c.all fun c => t.admits phase c && (phase = .body || t.plugins.isSome)

/-- The steps of a phase that are done. -/
def stepsRun (t : BuildTarget) (phase : Phase) (c : Option CompiledClass) : List Step :=
  if t.starts phase c then (phaseSteps c).takeWhile t.allows else []

/-- Whether all of a phase is done. -/
def ends (t : BuildTarget) (phase : Phase) (c : Option CompiledClass) : Bool :=
  t.starts phase c && (phaseSteps c).all t.allows

/-- The plugins of requests that are applied.  Requests that repeat an id are refused as a whole. -/
def applies (t : BuildTarget) (rs : List PluginRequest) : List String :=
  if (rs.map PluginRequest.id).Nodup then (toApply rs).takeWhile t.finds else []

/-- Whether all of some requests are met. -/
def grants (t : BuildTarget) (rs : List PluginRequest) : Bool :=
  (rs.map PluginRequest.id).Nodup && (toApply rs).all t.finds

theorem found_stepsRun (t : BuildTarget) (phase : Phase) (c : Option CompiledClass) :
    t.Found (t.eventsOf (t.stepsRun phase c)) := by
  refine found_eventsOf fun s hs => ?_
  unfold stepsRun at hs
  split at hs
  · exact List.all_eq_true.mp List.all_takeWhile s hs
  · cases hs

theorem finds_of_mem_applies {rs : List PluginRequest} {id : String} (h : id ∈ t.applies rs) :
    t.finds id = true := by
  unfold applies at h
  split at h
  · exact List.all_eq_true.mp List.all_takeWhile id h
  · cases h

theorem prefix_stepsRun (t : BuildTarget) (phase : Phase) (c : Option CompiledClass) :
    t.stepsRun phase c <+: phaseSteps c := by
  unfold stepsRun
  split
  · exact List.takeWhile_prefix _
  · exact List.nil_prefix

theorem prefix_applies (t : BuildTarget) (rs : List PluginRequest) :
    t.applies rs <+: toApply rs := by
  unfold applies
  split
  · exact List.takeWhile_prefix _
  · exact List.nil_prefix

theorem stepsRun_of_ends {phase : Phase} {c : Option CompiledClass} (h : t.ends phase c = true) :
    t.stepsRun phase c = phaseSteps c := by
  unfold ends at h
  rw [Bool.and_eq_true, List.all_eq_true] at h
  rw [stepsRun, if_pos h.1, List.takeWhile_eq_self_iff]
  exact h.2

theorem applies_of_grants {rs : List PluginRequest} (h : t.grants rs = true) :
    t.applies rs = toApply rs := by
  unfold grants at h
  rw [Bool.and_eq_true, decide_eq_true_eq, List.all_eq_true] at h
  rw [applies, if_pos h.1, List.takeWhile_eq_self_iff]
  exact h.2

theorem applies_after (h : t.Found es) : (t.after es).applies = t.applies := by
  unfold applies
  rw [finds_eq_after h]

theorem grants_after (h : t.Found es) : (t.after es).grants = t.grants := by
  unfold grants
  rw [finds_eq_after h]

theorem starts_after (t : BuildTarget) (es : List TargetEvent) :
    (t.after es).starts = t.starts := by
  funext phase c
  unfold starts after
  simp only [Option.isSome_map]
  rfl

theorem stepsRun_after (h : t.Found es) : (t.after es).stepsRun = t.stepsRun := by
  funext phase c
  rw [stepsRun, stepsRun, starts_after, allows_after h]

theorem ends_after (h : t.Found es) : (t.after es).ends = t.ends := by
  funext phase c
  rw [ends, ends, starts_after, allows_after h]

end BuildTarget

namespace Execution

variable {x : Execution}

theorem leaves_applyRequests (x : Execution) (rs : List PluginRequest) :
    Leaves (x.applyRequests rs) (x.target.grants rs)
      (x.target.after (x.target.newly (x.target.applies rs))) := by
  unfold applyRequests BuildTarget.grants BuildTarget.applies
  by_cases hnodup : (rs.map PluginRequest.id).Nodup
  · have hnone : repeated? [] rs = none :=
      repeated?_eq_none_iff.mpr ⟨hnodup, fun _ _ => List.not_mem_nil⟩
    have heach := leaves_applyEach x hnodup
    simp only [hnone, hnodup, decide_true, Bool.true_and, if_true]
    exact heach
  · have hsome : repeated? [] rs ≠ none := fun h => hnodup (repeated?_eq_none_iff.mp h).1
    obtain ⟨id, hid⟩ := Option.ne_none_iff_exists'.mp hsome
    simp only [hid, hnodup, decide_false, Bool.false_and, if_false]
    exact ⟨rfl, (BuildTarget.after_nil _).symm⟩

theorem admits_cases (x : Execution) (phase : Phase) (c : CompiledClass) :
    (x.admits phase c = .ok () ∧ x.target.admits phase c = true) ∨
      ∃ e, x.admits phase c = .error e ∧ x.target.admits phase c = false := by
  unfold admits BuildTarget.admits
  split
  next h =>
    refine .inr ⟨_, rfl, ?_⟩
    rcases h with hphase | hkind
    · simp only [hphase, decide_false, Bool.false_and]
    · simp only [hkind, decide_false, Bool.and_false]
  next h => exact .inl ⟨rfl, by simpa using h⟩

theorem preamble_cases (x : Execution) (c : CompiledClass) :
    (x.target.starts .preamble (some c) = false ∧ ∃ e, x.preamble c = (.error e, x)) ∨
      x.target.starts .preamble (some c) = true ∧ (∃ m, x.target.plugins = some m) ∧
        x.admits .preamble c = .ok () := by
  unfold preamble
  cases hm : x.target.plugins with
  | none => exact .inl ⟨by simp [BuildTarget.starts, hm], _, rfl⟩
  | some m =>
    rcases x.admits_cases .preamble c with ⟨hadmits, hfits⟩ | ⟨e, hadmits, hfits⟩
    · exact .inr ⟨by simp [BuildTarget.starts, hm, hfits], ⟨m, rfl⟩, hadmits⟩
    · refine .inl ⟨by simp [BuildTarget.starts, hfits], e, ?_⟩
      simp only [hadmits]

/-- The steps of a class that may start are done as far as the target allows. -/
theorem leaves_startedSteps {t : BuildTarget} {phase : Phase} {c : CompiledClass}
    (hstarts : t.starts phase (some c) = true) (x : Execution) (ht : x.target = t) :
    Leaves (x.steps c.name [] c.steps) (t.ends phase (some c))
      (t.after (t.eventsOf (t.stepsRun phase (some c)))) := by
  have hsteps := leaves_steps x c.name [] c.steps
  rw [ht] at hsteps
  unfold BuildTarget.ends BuildTarget.stepsRun
  rw [hstarts, Bool.true_and, if_pos rfl]
  exact hsteps

/-- A preamble is done step by step, and then its requests are met.  One that is absent or cannot
start does nothing. -/
theorem leaves_preamble (x : Execution) (pre : Option CompiledClass) :
    let t := x.target
    let P := t.eventsOf (t.stepsRun .preamble pre)
    let R := (t.after P).newly (if t.ends .preamble pre then t.applies (phaseRequests pre) else [])
    Leaves (optional preamble x pre) (t.ends .preamble pre && t.grants (phaseRequests pre))
      (t.after (P ++ R)) := by
  cases pre with
  | none => exact ⟨rfl, (BuildTarget.after_nil _).symm⟩
  | some c =>
    intro t P R
    have hfound : t.Found P := t.found_stepsRun .preamble (some c)
    rcases x.preamble_cases c with ⟨hstarts, e, hrefuses⟩ | ⟨hstarts, ⟨m, hm⟩, hadmits⟩
    · have hP : P = [] := by simp [P, t, BuildTarget.stepsRun, hstarts, BuildTarget.eventsOf]
      have hR : R = [] := by simp [R, t, BuildTarget.ends, hstarts, BuildTarget.newly]
      have hends : t.ends .preamble (some c) = false := by simp [t, BuildTarget.ends, hstarts]
      rw [optional, hrefuses, hP, hR, hends]
      exact ⟨rfl, (BuildTarget.after_nil _).symm⟩
    · have hsteps := leaves_startedSteps hstarts (x.report (.requestsRunning c.name t.name)) rfl
      unfold optional preamble
      simp only [hm, hadmits]
      rcases hsteps.cases with ⟨rs, x', hx, hok, ht⟩ | ⟨e, x', hx, hok, ht⟩
      · have hrs : rs = phaseRequests (some c) := requests_of_steps (congrArg Prod.fst hx)
        have hR : R = (t.after P).newly (t.applies rs) := by simp only [R, t, hok, hrs, if_true]
        -- The requests are met at the target that the steps left.  It finds what it found before
        -- them.
        have hrequests (x'' : Execution) (ht' : x''.target = x'.target) :
            Leaves (x''.applyRequests rs) (t.grants rs) (t.after (P ++ R)) := by
          have hleaves := leaves_applyRequests x'' rs
          rwa [ht', ht, BuildTarget.grants_after hfound, BuildTarget.applies_after hfound, ← hR,
            ← BuildTarget.after_append] at hleaves
        rw [hok, Bool.true_and, ← hrs]
        simp only [t, hx]
        rcases (hrequests { x' with
          handovers := x'.handovers ++ [Handover.mk rs x'.target.name] } rfl).cases with
          ⟨_, x'', hx'', hok', ht'⟩ | ⟨e, x'', hx'', hok', ht'⟩
        · simp only [hx'']
          exact ⟨hok'.symm, ht'⟩
        · simp only [hx'']
          exact ⟨hok'.symm, ht'⟩
      · have hR : R = [] := by simp [R, t, hok, BuildTarget.newly]
        rw [hok, hR, List.append_nil]
        simp only [t, hx]
        exact ⟨rfl, ht⟩

/-- A body is done step by step.  One that is absent or cannot start does nothing. -/
theorem leaves_body (x : Execution) (main : Option CompiledClass) :
    Leaves (optional body x main) (x.target.ends .body main)
      (x.target.after (x.target.eventsOf (x.target.stepsRun .body main))) := by
  cases main with
  | none => exact ⟨rfl, (BuildTarget.after_nil _).symm⟩
  | some c =>
    unfold optional body
    rcases x.admits_cases .body c with ⟨hadmits, hfits⟩ | ⟨e, hadmits, hfits⟩
    · have hstarts : x.target.starts .body (some c) = true := by simp [BuildTarget.starts, hfits]
      have hsteps := leaves_startedSteps hstarts (x.report (.bodyRunning c.name x.target.name)) rfl
      simp only [hadmits]
      rcases hsteps.cases with ⟨rs, x', hx, hok, ht⟩ | ⟨e, x', hx, hok, ht⟩
      · simp only [hx]
        exact ⟨hok.symm, ht⟩
      · simp only [hx]
        exact ⟨hok.symm, ht⟩
    · have hstarts : x.target.starts .body (some c) = false := by simp [BuildTarget.starts, hfits]
      unfold BuildTarget.ends BuildTarget.stepsRun
      simp only [hadmits, hstarts, Bool.false_and]
      exact ⟨rfl, (BuildTarget.after_nil _).symm⟩

end Execution

/-! ## 3. Courses -/

/-- How far a run goes: the steps of the preamble that are done, the requested plugins that are
applied, the steps of the body that are done, and whether that is the whole run. -/
structure Course where
  ran : List Step
  applied : List String
  acted : List Step
  whole : Bool

/-- A run that does not begin. -/
def Course.nothing : Course := ⟨[], [], [], false⟩

namespace BuildTarget

variable {t : BuildTarget} {pre main : Option CompiledClass}

/-- The course of a run that begins.  Requests are applied only after the whole preamble, and the
body is done only after all requests are met. -/
def course (t : BuildTarget) (pre main : Option CompiledClass) : Course where
  ran := t.stepsRun .preamble pre
  applied := if t.ends .preamble pre then t.applies (phaseRequests pre) else []
  acted :=
    if t.ends .preamble pre && t.grants (phaseRequests pre) then t.stepsRun .body main else []
  whole := t.ends .preamble pre && t.grants (phaseRequests pre) && t.ends .body main

theorem prefix_course (t : BuildTarget) (pre main : Option CompiledClass) :
    (t.course pre main).ran <+: phaseSteps pre ∧
      (t.course pre main).applied <+: toApply (phaseRequests pre) ∧
      (t.course pre main).acted <+: phaseSteps main := by
  unfold course
  refine ⟨t.prefix_stepsRun .preamble pre, ?_, ?_⟩
  · simp only
    split
    · exact t.prefix_applies _
    · exact List.nil_prefix
  · simp only
    split
    · exact t.prefix_stepsRun .body main
    · exact List.nil_prefix

/-- Nothing of the body is done before all that comes first. -/
theorem course_of_acted (h : (t.course pre main).acted ≠ []) :
    (t.course pre main).ran = phaseSteps pre ∧
      (t.course pre main).applied = toApply (phaseRequests pre) := by
  simp only [course] at h ⊢
  split at h
  next hgranted =>
    rw [Bool.and_eq_true] at hgranted
    rw [if_pos hgranted.1]
    exact ⟨stepsRun_of_ends hgranted.1, applies_of_grants hgranted.2⟩
  next => exact absurd rfl h

theorem course_of_whole (h : (t.course pre main).whole = true) :
    (t.course pre main).ran = phaseSteps pre ∧
      (t.course pre main).applied = toApply (phaseRequests pre) ∧
      (t.course pre main).acted = phaseSteps main := by
  simp only [course, Bool.and_eq_true] at h ⊢
  obtain ⟨⟨hends, hgrants⟩, hends'⟩ := h
  rw [if_pos hends, if_pos ⟨hends, hgrants⟩]
  exact ⟨stepsRun_of_ends hends, applies_of_grants hgrants, stepsRun_of_ends hends'⟩

theorem finds_of_mem_course {id : String} (h : id ∈ (t.course pre main).applied) :
    t.finds id = true := by
  simp only [course] at h
  split at h
  · exact finds_of_mem_applies h
  · cases h

/-- A plugin that is applied on the way is there, whatever comes later. -/
theorem mem_applied_course {id : String} (h : id ∈ (t.course pre main).applied)
    (later : List TargetEvent) :
    let P := t.eventsOf (t.course pre main).ran
    id ∈ (t.after (P ++ (t.after P).newly (t.course pre main).applied ++ later)).applied := by
  intro P
  have hfound : t.Found P := t.found_stepsRun .preamble pre
  have hfinds : (t.after P).finds id = true := by
    rw [finds_after hfound]
    exact finds_of_mem_course h
  rw [after_append, after_append]
  exact mem_applied_after later (mem_applied_after_newly h hfinds)

end BuildTarget

/-- A run takes its course. -/
theorem Execution.leaves_phases (x : Execution) (pre main : Option CompiledClass) :
    let t := x.target
    let c := t.course pre main
    let P := t.eventsOf c.ran
    let R := (t.after P).newly c.applied
    let B := (t.after (P ++ R)).eventsOf c.acted
    Leaves (x.phases pre main) c.whole (t.after (P ++ R ++ B)) := by
  intro t c P R B
  have hfound : t.Found (P ++ R) := (t.found_stepsRun .preamble pre).append
    (BuildTarget.found_newly (fun _ hid => BuildTarget.finds_of_mem_course hid) _)
  have hpre : Leaves (optional preamble x pre)
      (t.ends .preamble pre && t.grants (phaseRequests pre)) (t.after (P ++ R)) :=
    leaves_preamble x pre
  unfold phases
  rcases hpre.cases with ⟨_, x', hx, hok, ht⟩ | ⟨e, x', hx, hok, ht⟩
  · -- The body starts at the target that the preamble left, which allows what it allowed before.
    have hbody := leaves_body x' main
    have hacted : c.acted = t.stepsRun .body main := by simp only [c,
      BuildTarget.course, hok, if_true]
    have hwhole : c.whole = t.ends .body main := by
      simp only [c, BuildTarget.course, hok, Bool.true_and]
    rw [ht, BuildTarget.stepsRun_after hfound, BuildTarget.ends_after hfound, ← hacted, ← hwhole,
      ← BuildTarget.after_append] at hbody
    simp only [hx]
    rcases hbody.cases with ⟨_, x'', hx'', hok', ht'⟩ | ⟨e, x'', hx'', hok', ht'⟩
    · simp only [hx'']
      exact ⟨hok'.symm, ht'⟩
    · simp only [hx'']
      exact ⟨hok'.symm, ht'⟩
  · have hacted : c.acted = [] := by simp [c, BuildTarget.course, hok]
    have hwhole : c.whole = false := by simp [c, BuildTarget.course, hok]
    have hB : B = [] := by simp only [B, hacted, BuildTarget.eventsOf]
    rw [hwhole, hB, List.append_nil]
    simp only [hx]
    exact ⟨rfl, ht⟩

end ScriptPlugins
