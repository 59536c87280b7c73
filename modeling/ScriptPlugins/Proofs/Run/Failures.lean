import ScriptPlugins.Proofs.Run.Courses

/-!
# Failures — why a run ends early

The steps of a class fail only where one of them applies a plugin.  Requests fail only for a plugin
that is not found, if no id is requested twice and the target has plugins.  So what can go wrong
when classes run is told by the target and by what the classes hold.
-/

namespace ScriptPlugins

/-- A target as it is made: a project has plugins, and no other target does. -/
def BuildTarget.Formed (t : BuildTarget) : Prop := t.plugins.isSome = true ↔ t.kind = .project

namespace BuildTarget

variable {t : BuildTarget} {m : PluginManager} {es : List TargetEvent}

theorem formed_fresh (kind : ScriptKind) (name : String) (scope : Nat) (known : List String) :
    (fresh kind name scope known).Formed := by
  cases kind <;> simp [Formed, fresh]

/-- Whatever scripts do to a target, it keeps its form. -/
theorem Formed.after (h : t.Formed) (es : List TargetEvent) : (t.after es).Formed := by
  unfold Formed BuildTarget.after
  rw [Option.isSome_map]
  exact h

theorem Formed.exists_plugins (h : t.Formed) (hkind : t.kind = .project) :
    ∃ m, t.plugins = some m :=
  Option.isSome_iff_exists.mp (h.mpr hkind)

theorem Formed.plugins_eq_none (h : t.Formed) (hkind : t.kind ≠ .project) : t.plugins = none :=
  Option.not_isSome_iff_eq_none.mp fun hsome => hkind (h.mp hsome)

/-- Without known ids every plugin is found. -/
theorem finds_of_unrestricted (hm : t.plugins = some m) (hknown : m.known = none) (id : String) :
    t.finds id = true := by
  rw [finds, hm, Option.any_some, PluginManager.knows, hknown, Option.all_none, Bool.or_true]

end BuildTarget

namespace Execution

variable {x : Execution} {className : String} {requests : Requests} {s : Step} {ss : List Step}
  {rs : List PluginRequest} {e : RunError}

/-! ## 1. Steps -/

/-- How a step tells that it cannot apply a plugin. -/
def refusal (t : BuildTarget) (id : String) : String :=
  if t.plugins.isSome then (PluginError.notFound id).message
  else "cannot apply plugin '" ++ id ++ "': target has no plugins"

theorem refusal_after (t : BuildTarget) (es : List TargetEvent) :
    refusal (t.after es) = refusal t := by
  funext id
  unfold refusal BuildTarget.after
  simp only [Option.isSome_map]

theorem error_of_applyPlugin {m : PluginManager} (hm : x.target.plugins = some m) {id : String}
    {cause : PluginError} (h : (x.applyPlugin m id).1 = .error cause) :
    x.target.finds id = false ∧ cause = .notFound id := by
  have hfinds := (leaves_applyPlugin hm id).ends
  rw [h] at hfinds
  have hfinds : x.target.finds id = false := hfinds.symm
  have happly : x.target.applyPlugin m id = .error (.notFound id) := by
    rw [BuildTarget.applyPlugin_eq hm, hfinds]
    rfl
  refine ⟨hfinds, ?_⟩
  unfold applyPlugin at h
  split at h <;>
  · simp only [report, happly] at h
    exact (Except.error.inj h).symm

/-- A step fails if it applies a plugin that the target does not find. -/
theorem error_of_step (h : (x.step className requests s).1 = .error e) :
    ∃ id, s.action = .applyPlugin id ∧ x.target.finds id = false ∧
      e = .execution className s.line (refusal x.target id) := by
  have hallows := (leaves_step x className requests s).ends
  rw [h] at hallows
  obtain ⟨line, action⟩ := s
  cases action with
  | println text => cases h
  | setProperty key value => cases h
  | requestPlugin r => cases h
  | applyPlugin id =>
    refine ⟨id, rfl, hallows.symm, ?_⟩
    unfold step at h
    unfold refusal
    cases hm : x.target.plugins with
    | none =>
      simp only [report, hm] at h
      exact (Except.error.inj h).symm
    | some m =>
      simp only [report, hm] at h
      split at h
      next cause x' hx =>
        -- Applying fails for the very cause that `refusal` names.
        have hcause := error_of_applyPlugin (x := x.report (.stepRunning className line)) hm
          (congrArg Prod.fst hx)
        rw [hcause.2] at h
        exact (Except.error.inj h).symm
      next => cases h

/-- Steps fail where one of them applies a plugin that the target does not find. -/
theorem error_of_steps (h : (x.steps className requests ss).1 = .error e) :
    ∃ s ∈ ss, ∃ id, s.action = .applyPlugin id ∧ x.target.finds id = false ∧
      e = .execution className s.line (refusal x.target id) := by
  induction ss generalizing x requests with
  | nil => cases h
  | cons s ss ih =>
    rw [steps] at h
    have hleaves := leaves_step x className requests s
    rcases hstep : x.step className requests s with ⟨err | requests', x'⟩
    · rw [hstep] at h
      cases h
      exact ⟨s, List.mem_cons_self, error_of_step (congrArg Prod.fst hstep)⟩
    · rw [hstep] at h hleaves
      -- A step that is done changes neither what is found nor whether there are plugins.
      have hok : x.target.allows s = true := hleaves.ends.symm
      have htarget := hleaves.target
      rw [hok, if_pos rfl] at htarget
      obtain ⟨s', hs', id, haction, hfinds, rfl⟩ := ih h
      refine ⟨s', List.mem_cons_of_mem s hs', id, haction, ?_, ?_⟩
      · rw [← hfinds, htarget, BuildTarget.finds_after (BuildTarget.found_eventOf hok)]
      · rw [htarget, refusal_after]

/-- Requests alone never fail as steps. -/
theorem steps_ne_error (hall : ∀ s ∈ ss, s.action.isRequest = true) :
    (x.steps className requests ss).1 ≠ .error e := by
  intro h
  obtain ⟨s, hs, id, haction, -⟩ := error_of_steps h
  have hrequest := hall s hs
  rw [haction] at hrequest
  cases hrequest

/-! ## 2. Requests -/

/-- Requests of different plugins are met up to the first that is not found, and that one is
told. -/
theorem error_of_applyEach {cause : PluginError} (hm : x.target.plugins.isSome = true)
    (hnodup : (rs.map PluginRequest.id).Nodup) (h : (x.applyEach rs).1 = .error cause) :
    ∃ before id rest, toApply rs = before ++ id :: rest ∧
      (∀ id' ∈ before, x.target.finds id' = true) ∧ x.target.finds id = false ∧
      cause = .notFound id := by
  induction rs generalizing x with
  | nil => cases h
  | cons r rs ih =>
    rw [List.map_cons, List.nodup_cons] at hnodup
    rw [applyEach] at h
    cases happly : r.apply with
    | false =>
      rw [toApply_cons_resolved happly]
      rw [happly] at h
      exact ih (x := x.report _) hm hnodup.2 h
    | true =>
      obtain ⟨m, hm⟩ := Option.isSome_iff_exists.mp hm
      have hleaves := leaves_applyPlugin hm r.id
      rw [toApply_cons_applied happly]
      simp only [happly, if_true, hm] at h
      rcases hr : x.applyPlugin m r.id with ⟨err | newly, x'⟩
      · rw [hr] at h
        cases h
        obtain ⟨hfinds, hcause⟩ := error_of_applyPlugin hm (congrArg Prod.fst hr)
        exact ⟨[], r.id, toApply rs, rfl, List.forall_mem_nil _, hfinds, hcause⟩
      · rw [hr] at h hleaves
        have hok : x.target.finds r.id = true := hleaves.ends.symm
        have htarget := hleaves.target
        rw [hok, if_pos rfl] at htarget
        have hsome : x'.target.plugins.isSome = true := by
          rw [htarget, BuildTarget.after, Option.isSome_map, hm]
          rfl
        -- The others meet a target that finds what this one found.
        have hfinds : x'.target.finds = x.target.finds := by
          rw [htarget, BuildTarget.finds_after_newly_singleton hok]
        obtain ⟨before, id, rest, hsplit, hbefore, hid, rfl⟩ :=
          ih (x := x'.report (.pluginApplied r.id x'.target.name r.display newly)) hsome hnodup.2 h
        change ∀ id' ∈ before, x'.target.finds id' = true at hbefore
        change x'.target.finds id = false at hid
        rw [hfinds] at hbefore hid
        exact ⟨r.id :: before, id, rest, by rw [hsplit, List.cons_append],
          List.forall_mem_cons.mpr ⟨hok, hbefore⟩, hid, rfl⟩

/-- Requests of different plugins fail only for the first that is not found. -/
theorem error_of_applyRequests {cause : PluginError} (hm : x.target.plugins.isSome = true)
    (hnodup : (rs.map PluginRequest.id).Nodup) (h : (x.applyRequests rs).1 = .error cause) :
    ∃ before id rest, toApply rs = before ++ id :: rest ∧
      (∀ id' ∈ before, x.target.finds id' = true) ∧ x.target.finds id = false ∧
      cause = .notFound id := by
  have hnone : repeated? [] rs = none :=
    repeated?_eq_none_iff.mpr ⟨hnodup, fun _ _ => List.not_mem_nil⟩
  unfold applyRequests at h
  rw [hnone] at h
  exact error_of_applyEach hm hnodup h

end Execution

/-! ## 3. Phases -/

/-- Two classes that compilation has checked for a target: they are of its kind, the preamble only
requests, and it requests no id twice. -/
structure BuildTarget.Checked (t : BuildTarget) (pre main : Option CompiledClass) : Prop where
  preamble : ∀ c ∈ pre, t.admits .preamble c = true
  body : ∀ c ∈ main, t.admits .body c = true
  requests : ∀ s ∈ phaseSteps pre, s.action.isRequest = true
  nodup : ((phaseRequests pre).map PluginRequest.id).Nodup

/-- The errors with which checked classes may fail: there are no plugins to request, or a plugin is
not found, for a request or for a step of the body. -/
inductive RunError.Open (t : BuildTarget) (pre main : Option CompiledClass) : RunError → Prop
  | missingPluginManager : t.plugins = none → pre.isSome = true →
      Open t pre main (.missingPluginManager t.name t.kind)
  | notFound {id : String} : id ∈ toApply (phaseRequests pre) → t.finds id = false →
      Open t pre main (.pluginApplication (.notFound id))
  | execution {c : CompiledClass} {s : Step} {id : String} : c ∈ main → s ∈ c.steps →
      s.action = .applyPlugin id → t.finds id = false →
      Open t pre main (.execution c.name s.line (Execution.refusal t id))

namespace Execution

variable {x : Execution} {pre main : Option CompiledClass} {e : RunError}

theorem admits_eq_ok {phase : Phase} {c : CompiledClass} (h : x.target.admits phase c = true) :
    x.admits phase c = .ok () := by
  rcases x.admits_cases phase c with ⟨hok, -⟩ | ⟨err, -, hfits⟩
  · exact hok
  · rw [h] at hfits
    cases hfits

/-- The steps of a preamble answer what it requests.  They leave the target with the plugins that it
had, and finding what it found. -/
theorem of_steps_preamble {c : CompiledClass} {rs : Requests} {x' : Execution}
    (hadmits : x.target.admits .preamble c = true) (hsome : x.target.plugins.isSome = true)
    (hsteps : steps (x.report (.requestsRunning c.name x.target.name)) c.name [] c.steps =
      (.ok rs, x')) :
    rs = phaseRequests (some c) ∧ x'.target.plugins.isSome = true ∧
      x'.target.finds = x.target.finds := by
  have hstarts : x.target.starts .preamble (some c) = true := by
    simp [BuildTarget.starts, hadmits, hsome]
  have htarget :=
    (leaves_startedSteps hstarts (x.report (.requestsRunning c.name x.target.name)) rfl).target
  rw [hsteps] at htarget
  change x'.target = _ at htarget
  have hfinds := BuildTarget.finds_eq_after (x.target.found_stepsRun .preamble (some c))
  rw [← htarget] at hfinds
  refine ⟨requests_of_steps (congrArg Prod.fst hsteps), ?_, hfinds⟩
  rw [htarget, BuildTarget.after, Option.isSome_map]
  exact hsome

/-- A checked preamble fails if there are no plugins, or if one of those it requests is not
found. -/
theorem error_of_preamble (h : x.target.Checked pre main)
    (he : (optional preamble x pre).1 = .error e) : e.Open x.target pre main := by
  cases pre with
  | none => cases he
  | some c =>
    have hadmits := h.preamble c rfl
    unfold optional preamble at he
    cases hm : x.target.plugins with
    | none =>
      simp only [hm] at he
      cases he
      exact .missingPluginManager hm rfl
    | some m =>
      simp only [hm, admits_eq_ok hadmits] at he
      rcases hsteps : steps (x.report (.requestsRunning c.name x.target.name)) c.name
          [] c.steps with
        ⟨err | rs, x'⟩
      · -- Steps of a preamble only collect requests and cannot fail.
        exact absurd (congrArg Prod.fst hsteps) (steps_ne_error h.requests)
      · obtain ⟨rfl, hsome, hfinds⟩ := of_steps_preamble hadmits (by rw [hm]; rfl) hsteps
        rw [hsteps] at he
        simp only at he
        split at he
        next cause x'' hx =>
          cases he
          obtain ⟨before, id, rest, hsplit, -, hnot, rfl⟩ := error_of_applyRequests
            (x := { x' with
              handovers := x'.handovers ++ [⟨phaseRequests (some c), x'.target.name⟩] })
            hsome h.nodup (congrArg Prod.fst hx)
          change x'.target.finds id = false at hnot
          have hid : id ∈ toApply (phaseRequests (some c)) := by simp [hsplit]
          exact .notFound hid (hfinds ▸ hnot)
        next => cases he

/-- A checked body fails where it applies a plugin that is not found. -/
theorem error_of_body (h : ∀ c ∈ main, x.target.admits .body c = true)
    (he : (optional body x main).1 = .error e) :
    ∃ c ∈ main, ∃ s ∈ c.steps, ∃ id, s.action = .applyPlugin id ∧ x.target.finds id = false ∧
      e = .execution c.name s.line (refusal x.target id) := by
  cases main with
  | none => cases he
  | some c =>
    have hadmits : x.admits .body c = .ok () := admits_eq_ok (h c rfl)
    unfold optional body at he
    simp only [hadmits] at he
    split at he
    next err x' hx =>
      cases he
      exact ⟨c, rfl, error_of_steps (x := x.report (.bodyRunning c.name x.target.name))
        (congrArg Prod.fst hx)⟩
    next => cases he

/-- A preamble records only plugins that the target finds. -/
theorem exists_found_preamble (x : Execution) (pre : Option CompiledClass) :
    ∃ es, x.target.Found es ∧ (optional preamble x pre).2.target = x.target.after es := by
  refine ⟨_, (x.target.found_stepsRun .preamble pre).append (BuildTarget.found_newly ?_ _),
    (leaves_preamble x pre).target⟩
  intro id hid
  split at hid
  · exact BuildTarget.finds_of_mem_applies hid
  · cases hid

/-- **Checked classes fail only for plugins**: because there are none, or because one is not
found. -/
theorem error_of_phases (h : x.target.Checked pre main)
    (he : (x.phases pre main).1 = .error e) : e.Open x.target pre main := by
  obtain ⟨es, hfound, htarget⟩ := exists_found_preamble x pre
  unfold phases at he
  rcases hpre : optional preamble x pre with ⟨err | ⟨⟩, x'⟩
  · rw [hpre] at he
    cases he
    exact error_of_preamble h (congrArg Prod.fst hpre)
  · rw [hpre] at he htarget
    change x'.target = x.target.after es at htarget
    simp only at he
    split at he
    next err x'' hx =>
      cases he
      -- The body meets a target of the same kind that finds the same plugins.
      obtain ⟨c, hc, s, hs, id, haction, hfinds, rfl⟩ :=
        error_of_body (x := x') (by rw [htarget]; exact h.body) (congrArg Prod.fst hx)
      rw [htarget, BuildTarget.finds_eq_after hfound] at hfinds
      rw [htarget, refusal_after]
      exact .execution hc hs haction hfinds
    next => cases he

/-- Checked classes do not fail on a target that finds every plugin. -/
theorem isOk_of_unrestricted {m : PluginManager} (h : x.target.Checked pre main)
    (hm : x.target.plugins = some m) (hknown : m.known = none) :
    (x.phases pre main).1 = .ok () := by
  cases hp : (x.phases pre main).1 with
  | ok => rfl
  | error e =>
    have hfinds := BuildTarget.finds_of_unrestricted hm hknown
    cases error_of_phases h hp with
    | missingPluginManager hnone => rw [hm] at hnone; cases hnone
    | @notFound id _ hnot => rw [hfinds id] at hnot; cases hnot
    | @execution c s id _ _ _ hnot => rw [hfinds id] at hnot; cases hnot

end Execution

end ScriptPlugins
