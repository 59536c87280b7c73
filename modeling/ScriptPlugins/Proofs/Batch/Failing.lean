import ScriptPlugins.Proofs.Adapter.Running
import ScriptPlugins.Proofs.Batch.Applying
import ScriptPlugins.Proofs.Compile.Origins
import ScriptPlugins.Proofs.Scope.Freezing

/-!
# Failing — compiled scripts do not go wrong

What a script could do wrong is found out when it is compiled.  Once its batch reports success, its
adapter finds the classes on every target of its kind below the opened output, each class fits, and
what is left to fail is a plugin that the target does not have.
-/

namespace ScriptPlugins

open FileTree BuildLayout ScriptPlugins.Language

variable {p : Precompiler} {L : Location} {used : Set Script} {root top i : Nat}
  {scripts : List Script} {s : Script} {w v u : World} {report : BatchReport}
  {success : ScriptSuccess}

/-! ## 1. Classes of a script that succeeded -/

/-- An entry that stands for a phase of a script has the class of that phase. -/
theorem Made.Suits.compiled {m : Made} {phase : Phase} (h : m.Suits s phase) :
    m.compiled = ⟨s.classNameOf phase, phase, s.kind, m.steps⟩ := by
  have hserves := h.serves
  simp only [Made.serves, decide_eq_true_eq] at hserves
  obtain ⟨hphase, hkind, -⟩ := hserves
  rw [Made.compiled, h.name, hphase, hkind]

namespace Script.Succeeds

variable {x : String → Option CompiledClass} {pre : Option Made} {main : Made} {a : Adapter}
  {target : BuildTarget}

/-- On a target of its kind that sees what the batch has exported, the adapter of a script runs the
classes that do something. -/
theorem classes_doing (h : s.Succeeds used x pre main a) {t : ScopeTree}
    (hkind : target.kind = s.kind) (hr : ∀ n c, x n = some c → t.resolve target.scope n = .ok c) :
    a.classes t target = .ok (doing (pre.map Made.compiled), doing (some main.compiled)) := by
  have hsees : ∀ m ∈ pre.toList ++ [main], t.resolve target.scope m.compiled.name =
      .ok m.compiled :=
    fun m hm => hr _ _ (h.exports m hm)
  obtain ⟨id, rfl⟩ := h.adapter
  refine Adapter.classes_of_names hkind ?_ (LoadedUnit.nameIfUsed?_eq rfl) fun c hc => ?_
  · cases pre with
    | none => rfl
    | some m => exact LoadedUnit.nameIfUsed?_eq (u := m.unit id) rfl
  · rcases List.mem_append.mp hc with hc | hc
    · obtain ⟨m, hm, rfl⟩ := Option.map_eq_some_iff.mp (of_mem_doing (Option.mem_toList.mp hc)).1
      exact hsees m (List.mem_append_left _ (Option.mem_toList.mpr hm))
    · obtain rfl : main.compiled = c := Option.some.inj (of_mem_doing (Option.mem_toList.mp hc)).1
      exact hsees main (List.mem_append_right _ (List.mem_singleton_self main))

/-- The preamble of a script only requests, and requests no id twice. -/
theorem requests_preamble (h : s.Succeeds used x pre main a) :
    (∀ step ∈ phaseSteps (pre.map Made.compiled), step.action.isRequest = true) ∧
      ((phaseRequests (pre.map Made.compiled)).map PluginRequest.id).Nodup := by
  cases pre with
  | none => exact ⟨fun _ hmem => (by cases hmem), List.nodup_nil⟩
  | some m =>
    obtain ⟨hsound, -⟩ := h.sound m (List.mem_append_left _ (List.mem_singleton_self m))
    have hphase : m.phase = .preamble := congrArg CompiledClass.phase (h.preamble m rfl).compiled
    have hsteps := hsound.steps
    rw [hphase] at hsteps
    obtain ⟨ss, -, hlower, -⟩ := stepsOf_eq_ok hsteps
    obtain ⟨hspecs, hnodup, -⟩ := lower_preamble_eq_ok hlower
    have hrequest : Step.request? ∘ PluginSpec.step = some ∘ fun s => ⟨s.id, s.version, s.apply⟩ :=
      rfl
    simp only [Option.map_some, phaseRequests, phaseSteps, Option.elim_some, Made.compiled, hspecs]
    rw [List.filterMap_map, hrequest, List.filterMap_eq_map, List.map_map]
    exact ⟨fun step hmem => by obtain ⟨spec, -, rfl⟩ := List.mem_map.mp hmem; rfl, hnodup⟩

/-- The classes of a script are checked for every target of its kind. -/
theorem checked (h : s.Succeeds used x pre main a) (hkind : target.kind = s.kind) :
    target.Checked (doing (pre.map Made.compiled)) (doing (some main.compiled)) := by
  obtain ⟨hrequests, hnodup⟩ := h.requests_preamble
  refine ⟨fun c hc => ?_, fun c hc => ?_, ?_, ?_⟩
  · obtain ⟨m, hm, rfl⟩ := Option.map_eq_some_iff.mp (of_mem_doing hc).1
    simp [BuildTarget.admits, (h.preamble m hm).compiled, hkind]
  · obtain rfl : main.compiled = c := Option.some.inj (of_mem_doing hc).1
    simp [BuildTarget.admits, h.body.compiled, hkind]
  · rwa [phaseSteps_doing]
  · rwa [phaseRequests, phaseSteps_doing]

/-- A step of the body that applies a plugin stands in the script, on its line. -/
theorem standsIn (h : s.Succeeds used x pre main a) (hsource : Unmistaken used s) {line : Nat}
    {id : String} (hstep : ⟨line, .applyPlugin id⟩ ∈ main.steps) :
    Statement.StandsIn ⟨line, .applyPlugin id⟩ s.source := by
  obtain ⟨ss, hss, hlower, -⟩ := h.body_statements hsource
  exact standsIn_of_body hss (mem_of_lower hlower hstep)

end Script.Succeeds

/-! ## 2. Targets below the opened output -/

/-- A scope that exports nothing, right below one that is locked, sees what that one exports,
whatever else has been done to the tree since. -/
theorem ScopeTree.Exposes.resolve_below {t : ScopeTree} {output child : Nat}
    {x : String → Option CompiledClass} (h : t.Exposes output x) (ht : t.Sound) {calls : List Call}
    {sc : Scope} (hsc : (t.afterAll calls).scope? child = some sc)
    (hparent : sc.parent = some output)
    (hempty : sc.classes = ∅) {n : String} {c : CompiledClass} (hn : x n = some c) :
    (t.afterAll calls).resolve child n = .ok c := by
  obtain ⟨above, habove, hlocked, hclasses⟩ := h
  have hsound := ht.afterAll calls
  -- The scope above is live as long as there is one below it, and it is frozen.
  have hlive := (hsound.parent child output ((parent?_eq hsc).trans hparent)).2
  rcases growsTo_afterAll habove calls with hgone | ⟨above', habove', hgrows⟩
  · rw [hgone.2] at hlive
    cases hlive
  · have hexports : above'.classes = above.classes := congrArg Prod.fst (hgrows.frozen hlocked)
    refine hsound.resolve_above hsc hparent ?_ habove' ?_
    · rw [hempty]
      exact Std.ExtTreeMap.getElem?_empty
    · rw [hexports, hclasses n, hn]

/-- The errors with which a compiled script may fail on a target: there are no plugins to request,
or a plugin is not found, for a request or for a statement of the body, which is named by its
line. -/
inductive RunError.Legitimate (s : Script) (t : BuildTarget) : RunError → Prop
  | missingPluginManager : t.plugins = none → Legitimate s t (.missingPluginManager t.name t.kind)
  | notFound {id : String} : t.finds id = false → Legitimate s t (.pluginApplication (.notFound id))
  | execution {line : Nat} {id : String} : Statement.StandsIn ⟨line, .applyPlugin id⟩ s.source →
      t.finds id = false →
      Legitimate s t (.execution (s.classNameOf .body) line (Execution.refusal t id))

/-- What running checked classes ends with when the adapter is applied. -/
theorem Adapter.apply_of_phases {a : Adapter} {x : Execution} {z : World}
    {pre main : Option CompiledClass} {sc : Scope}
    (hclasses : a.classes z.scopes x.target = .ok (pre, main))
    (hsc : z.scopes.scope? x.target.scope = some sc) :
    (Job.run (a.apply x) z).1.1 = (x.phases pre main).1.mapError fun e => ⟨a.scriptId, e⟩ := by
  let z₁ : World := { z with log := z.log ++ [.adapterApplying a.scriptId x.target.name] }
  have hexecute : (Job.run (a.execute x) z₁).1 =
      ((x.phases pre main).1, { (x.phases pre main).2 with log := [] }) := by
    rw [run_execute_of_classes (w := z₁) hclasses]
    exact Runner.run_runOn_of_live (w := z₁) hsc pre main
  have hreport :
      Job.run (discard <| Job.perform (.report (.adapterApplying a.scriptId x.target.name)))
      z = ((), z₁) := rfl
  rw [apply, Job.run_bind, hreport, Job.run_bind, hexecute]
  rcases (x.phases pre main).1 with e | ⟨⟩ <;> rfl

namespace Precompiler

/-- **Compiled scripts do not go wrong.**  Take a build that began empty, any batch and any
schedule, and let its output be opened in any session.  The adapter of a script with a successful
report, applied to a target of its kind in a scope of its own right below the output, fails only for
want of plugins, and a step that fails names the line of its statement in the script.  It does not
fail on a project without known plugins. -/
theorem compileScripts_sound (hfit : p.layout.Fitting) (htakes : ∀ s ∈ used, p.layout.Takes s)
    (h : p.layout.Reached L used w) (hs : ∀ s ∈ scripts, s ∈ used)
    (hschedule : p.Schedules root scripts w (.ok report) v) (hscript : scripts[i]? = some s)
    (hreport : report.scripts[i]? = some ⟨s.id, .ok success⟩) (hsource : Unmistaken used s)
    (hfiles : u.files = v.files) (hsound : u.scopes.Sound) (htop : u.scopes.isLive top = true) :
    ∃ output u', Job.run (p.layout.openOutput top).run u = (.ok output, u') ∧
      u'.scopes.isLive output = true ∧
      ∀ (calls : List ScopeTree.Call) (z : World) (x : Execution) (sc : Scope),
        z.scopes = u'.scopes.afterAll calls → z.scopes.scope? x.target.scope = some sc →
        sc.parent = some output → sc.classes = ∅ → x.target.kind = s.kind →
        let ran := (Job.run (success.adapter.apply x) z).1
        (∀ f, ran.1 = .error f → f.scriptId = s.id ∧ f.cause.Legitimate s x.target) ∧
        (s.kind = .project → x.target.Formed → (∀ m ∈ x.target.plugins, m.known = none) →
          ran.1 = .ok ()) := by
  obtain ⟨scope, made, w₀, times, w₁, ho, hl⟩ :=
    hschedule.exists_leaving (h.inOrder hfit htakes) hfit htakes hs
  have hbegins := ho.opened.begins
  obtain ⟨pre, main, hsucceeds⟩ := hl.succeeds hbegins.madeFrom htakes hs hscript hreport
  obtain ⟨scopes, log, hopen, hsound', hexposes⟩ :=
    hl.run_openOutput hbegins hfit htakes hs hfiles hsound htop
  have hlive : scopes.isLive u.scopes.slots.length = true := by
    obtain ⟨above, habove, -⟩ := hexposes
    rw [ScopeTree.isLive, habove]
    rfl
  refine ⟨_, _, hopen, hlive, fun calls z x sc hz hsc hparent hempty hkind => ?_⟩
  -- Whatever other scopes were made since, the target sees the classes through its parent.
  have hclasses : success.adapter.classes z.scopes x.target = _ :=
    hsucceeds.classes_doing hkind fun n c hn =>
      hz ▸ hexposes.resolve_below hsound' (hz ▸ hsc) hparent hempty hn
  have hran := Adapter.apply_of_phases hclasses hsc
  have hchecked := hsucceeds.checked hkind
  refine ⟨fun f hf => ?_, fun hproject hformed hknown => ?_⟩
  · rw [hran] at hf
    obtain ⟨e, he, rfl⟩ := mapError_eq_error hf
    obtain ⟨id, ha⟩ := hsucceeds.adapter
    refine ⟨by rw [ha]; rfl, ?_⟩
    cases Execution.error_of_phases hchecked he with
    | missingPluginManager hnone _ => exact .missingPluginManager hnone
    | notFound _ hfinds => exact .notFound hfinds
    | @execution c step id hc hstep haction hfinds =>
      obtain rfl : main.compiled = c := Option.some.inj (of_mem_doing hc).1
      obtain ⟨line, action⟩ := step
      obtain rfl : action = .applyPlugin id := haction
      rw [hsucceeds.body.compiled]
      exact .execution (hsucceeds.standsIn hsource hstep) hfinds
  · obtain ⟨m, hm⟩ := hformed.exists_plugins (hkind.trans hproject)
    rw [hran, Execution.isOk_of_unrestricted hchecked hm (hknown m hm)]
    rfl

/-- The theorem for the first batch of a build, applied in a new session to a project that finds
every plugin, and to one that knows one other. -/
theorem compileScripts_sound_one :
    let w := (Job.run BuildLayout.small.cache.create.run BuildLayout.bareWorld).2
    ∃ report v success output u', smallPrecompiler.Schedules 0 smallScripts w (.ok report) v ∧
      report.scripts[0]? = some ⟨"one", .ok success⟩ ∧
      Job.run (BuildLayout.small.openOutput 0).run { BuildLayout.bareWorld with files := v.files } =
        (.ok output, u') ∧
      let z : World := { u' with scopes := u'.scopes.after (.newChild output "app") }
      let project (known : List String) : Execution :=
        .start (.fresh .project "app" u'.scopes.slots.length known)
      (Job.run (success.adapter.apply (project [])) z).1.1 = .ok () ∧
      ∀ f, (Job.run (success.adapter.apply (project ["groovy"])) z).1.1 = .error f →
        f.scriptId = "one" ∧
          f.cause.Legitimate (smallScripts.head (by decide)) (project ["groovy"]).target := by
  intro w
  obtain ⟨report, v, success, hschedule, hsuccess⟩ := smallScripts_succeeds
  have htop : ScopeTree.isLive (.root "core") 0 = true := rfl
  obtain ⟨output, u', hopen, hlive, hall⟩ := compileScripts_sound (p := smallPrecompiler)
    (u := { BuildLayout.bareWorld with files := v.files }) BuildLayout.fitting_small
    takes_smallScripts (.start BuildLayout.empty_bareWorld) (fun _ h => h) hschedule
    (s := smallScripts.head (by decide)) rfl hsuccess unmistaken_smallScripts rfl
    (ScopeTree.sound_root "core") htop
  refine ⟨report, v, success, output, u', hschedule, hsuccess, hopen, ?_⟩
  intro z project
  obtain ⟨above, habove⟩ := Option.isSome_iff_exists.mp hlive
  have hscopes : z.scopes = u'.scopes.grown output above "app" := by
    show u'.scopes.after (.newChild output "app") = _
    simp only [ScopeTree.after, ScopeTree.newChild_eq_ok habove]
  -- The project's own scope is a fresh child of the output.
  have hchild : z.scopes.scope? u'.scopes.slots.length = some (.fresh "app" (some output)) :=
    hscopes ▸ ScopeTree.scope?_grown_new habove "app"
  have hproject (known : List String) :=
    hall [.newChild output "app"] z (project known) _ rfl hchild rfl rfl rfl
  exact ⟨(hproject []).2 rfl (BuildTarget.formed_fresh ..) (fun m hm => by cases hm; rfl),
    (hproject ["groovy"]).1⟩

end Precompiler

end ScriptPlugins
