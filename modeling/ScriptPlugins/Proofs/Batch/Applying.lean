import ScriptPlugins.Proofs.Batch.Independence
import ScriptPlugins.Proofs.Batch.Output
import ScriptPlugins.Proofs.Language.Split
import ScriptPlugins.Proofs.Run.Adapters

/-!
# Applying — what a compiled script does is what it says

A script whose batch reports success is applied through the opened output.  Its adapter finds the
classes that the batch has loaded, and running them does to a project what following the statements
of the script does.
-/

namespace ScriptPlugins

open FileTree BuildLayout ScriptPlugins.Language

variable {p : Precompiler} {L : Location} {used : Set Script} {root scope top i : Nat}
  {made : String → Option Made} {times : Nat → Phase → Instant} {scripts : List Script} {s : Script}
  {w w₀ w₁ v u : World} {report : BatchReport} {success : ScriptSuccess}

/-! ## 1. Scripts that succeed -/

/-- The entries that a script has loaded when it succeeds, and the adapter that it got for them. -/
structure Script.Succeeds (s : Script) (used : Set Script) (x : String → Option CompiledClass)
    (pre : Option Made) (main : Made) (a : Adapter) : Prop where
  preamble : ∀ m ∈ pre, m.Suits s .preamble
  hasPreamble : pre.isSome = s.hasPreamble
  body : main.Suits s .body
  sound : ∀ m ∈ pre.toList ++ [main], m.Sound ∧ m.script ∈ used
  exports : ∀ m ∈ pre.toList ++ [main], x m.name = some m.compiled
  adapter : ∃ scope, a = .ofScript s (pre.map (·.unit scope)) (main.unit scope)

namespace Precompiler

/-- A script with a successful report was accepted, and has compiled. -/
theorem scriptOn_of_report (hs : scripts[i]? = some s)
    (h : (p.reportsAt scope made times scripts)[i]? = some ⟨s.id, .ok success⟩) :
    (i, s) ∈ acceptedOf scripts ∧ (p.scriptOn s scope (times i) (stageOf made)).1 =
      .ok success := by
  have hreview : ((Owners.review [] scripts).map Prod.fst)[i]? = some s := by
    rwa [Owners.map_fst_review]
  rw [List.getElem?_map, Option.map_eq_some_iff] at hreview
  obtain ⟨⟨s', e⟩, hi, rfl⟩ := hreview
  have hresult : (Reviewed.results (fun i s => (p.scriptOn s scope (times i) (stageOf made)).1)
      (Owners.review [] scripts) 0)[i]? =
      some (e.elim (p.scriptOn s' scope (times i) (stageOf made)).1 .error) := by
    rw [Reviewed.results, List.getElem?_map, List.getElem?_zipIdx, hi, Nat.zero_add]
    rfl
  rw [reportsAt, List.getElem?_zipWith, hs, hresult] at h
  have hok : e.elim (p.scriptOn s' scope (times i) (stageOf made)).1 .error = .ok success :=
    (ScriptReport.mk.inj (Option.some.inj h)).2
  cases e with
  | some e => cases hok
  | none =>
    refine ⟨List.mem_filterMap.mpr ⟨((s', none), i), ?_, rfl⟩, hok⟩
    rw [List.mk_mem_zipIdx_iff_getElem?]
    exact hi

/-- The report on a script that was accepted is its result. -/
theorem reportsAt_of_accepted (h : (i, s) ∈ acceptedOf scripts) :
    (p.reportsAt scope made times scripts)[i]? =
      some ⟨s.id, (p.scriptOn s scope (times i) (stageOf made)).1⟩ := by
  obtain ⟨⟨⟨s', e⟩, k⟩, hk, he⟩ := List.mem_filterMap.mp h
  rw [List.mk_mem_zipIdx_iff_getElem?] at hk
  cases e with
  | some e => cases he
  | none =>
    obtain ⟨rfl, rfl⟩ := Prod.mk.inj (Option.some.inj he)
    have hs : scripts[k]? = some s' := by
      have hmap := congrArg (·[k]?) (Owners.map_fst_review [] scripts)
      simp only [List.getElem?_map, hk, Option.map_some] at hmap
      exact hmap.symm
    rw [reportsAt, List.getElem?_zipWith, hs, Reviewed.results, List.getElem?_map,
      List.getElem?_zipIdx, hk, Nat.zero_add]
    rfl

/-- What a script has loaded in a batch that reports its success. -/
theorem Leaving.succeeds (h : p.Leaving L scope made times scripts w₀ w₁ (.ok report) v)
    (hmade : MadeFrom used made) (htakes : ∀ s ∈ used, p.layout.Takes s)
    (hs : ∀ s ∈ scripts, s ∈ used) (hscript : scripts[i]? = some s)
    (hreport : report.scripts[i]? = some ⟨s.id, .ok success⟩) :
    ∃ pre main, s.Succeeds used (p.exportsAfter scope (acceptedOf scripts) made times) pre main
      success.adapter := by
  rw [Except.ok.inj h.report] at hreport
  obtain ⟨hacc, hok⟩ := scriptOn_of_report hscript hreport
  have hused : s ∈ used := hs s (List.mem_of_getElem? hscript)
  have hstage : MadeFrom used (stageOf made).made := hmade
  have hat {n : String} {phase : Phase} (hn : n = s.classNameOf phase) :
      p.exportsAfter scope (acceptedOf scripts) made times n =
        (p.layout.cache.scriptOn p.compiler s scope (times i) (stageOf made)).2.exports n := by
    rw [exportsAfter, stageAt_of_mem (allApart_acceptedOf scripts) hacc hn, scriptOn_stage]
  obtain ⟨hafter, pre, hpre, ⟨err, g, hr, -⟩ | ⟨main, recompiled, g, hr, hmain, hhas, hl⟩⟩ :=
    Cache.loads_scriptOn p.compiler scope hstage (htakes s hused).fits hused
      (h.ended.leaves _ hacc).times
  · rw [scriptOn_error hr] at hok
    cases hok
  · rw [scriptOn_ok hr] at hok
    rw [hr] at hafter
    simp only [hr] at hat
    refine ⟨pre, main, hpre, hhas, hmain, fun m hm => (hafter _ m (hl.made m hm)).2, fun m hm => ?_,
      scope, (congrArg ScriptSuccess.adapter (Except.ok.inj hok)).symm⟩
    rw [← hl.exports_of_mem (Made.nodup_of_suits hpre hmain) hm]
    rcases List.mem_append.mp hm with hm | hm
    · exact hat (hpre m (Option.mem_toList.mp hm)).name
    · exact hat (List.mem_singleton.mp hm ▸ hmain.name)

/-- What a batch exports can be packaged and read back. -/
theorem Leaving.carries {r : Except BuildError BatchReport}
    (h : p.Leaving L scope made times scripts w₀ w₁ r v) (hmade : MadeFrom used made)
    (htakes : ∀ s ∈ used, p.layout.Takes s) (hs : ∀ s ∈ scripts, s ∈ used) (n : String)
    (c : CompiledClass) (hn : p.exportsAfter scope (acceptedOf scripts) made times n = some c) :
    p.layout.Carries n c := by
  have hapart := allApart_acceptedOf scripts
  have hacc := mem_of_acceptedOf hs
  obtain ⟨ms, hms⟩ := h.ended.exists_loaded hmade htakes hapart hacc
  obtain ⟨m, hm, rfl⟩ := hms.only n (by rw [hn]; simp)
  obtain rfl : m.compiled = c := Option.some.inj ((hms.exports m hm).symm.trans hn)
  have hfrom := h.ended.madeFrom hmade htakes hapart hacc
  obtain ⟨-, hsound, -⟩ := hfrom _ m (hms.entries m hm)
  have hpacks : p.layout.Packs m.name := hfrom.packs htakes _ m (hms.entries m hm)
  exact ⟨rfl, hsound.readable, hpacks.cache.file, hpacks.packagedClass⟩

end Precompiler

/-! ## 2. What the classes of a script are -/

namespace Script.Succeeds

variable {x : String → Option CompiledClass} {pre : Option Made} {main : Made} {a : Adapter}

/-- The steps of a preamble are those of the statements in front of the body. -/
theorem preamble_statements (h : s.Succeeds used x pre main a) (hsource : Unmistaken used s) :
    ∃ ss, statementsOf (split s.source).preamble = .ok ss ∧
      lower .preamble [] ss = .ok (pre.elim [] Made.steps) := by
  cases pre with
  | none =>
    have hempty : s.sourceOf .preamble = "" := by
      simpa [Script.hasPreamble] using h.hasPreamble
    exact ⟨[], (congrArg statementsOf hempty).trans statementsOf_empty, rfl⟩
  | some m =>
    obtain ⟨hsound, hused⟩ := h.sound m (List.mem_append_left _ (List.mem_singleton_self m))
    obtain ⟨-, -, hsteps⟩ := Made.stepsOf_of_serves hsource hsound hused (h.preamble m rfl).serves
    obtain ⟨ss, hss, hlower, -⟩ := stepsOf_eq_ok hsteps
    exact ⟨ss, hss, hlower⟩

/-- The steps of a body are those of its statements, and none of them is a request. -/
theorem body_statements (h : s.Succeeds used x pre main a) (hsource : Unmistaken used s) :
    ∃ ss, statementsOf (split s.source).body = .ok ss ∧ lower .body [] ss = .ok main.steps ∧
      ∀ step ∈ main.steps, step.action.isRequest = false := by
  obtain ⟨hsound, hused⟩ := h.sound main (List.mem_append_right _ (List.mem_singleton_self main))
  obtain ⟨-, -, hsteps⟩ := Made.stepsOf_of_serves hsource hsound hused h.body.serves
  obtain ⟨ss, hss, hlower, haccepts⟩ := stepsOf_eq_ok hsteps
  refine ⟨ss, hss, hlower, fun step hstep => ?_⟩
  have hnot := haccepts step hstep
  simp only [Phase.hook, Hook.accepts, reduceCtorEq, false_or, Bool.not_eq_true,
    decide_eq_true_eq] at hnot
  exact hnot

/-- A class that does something is found under its name. -/
theorem resolve_unit {m : Made} {phase : Phase} (hm : m.Suits s phase) (hkind : s.kind = .project)
    {t : ScopeTree} (hr : t.resolve scope m.name = .ok m.compiled) (id : Nat) :
    Adapter.resolve t scope (m.unit id).nameIfUsed? =
      .ok (Execution.classOf phase m.name m.steps) := by
  have hserves := hm.serves
  simp only [Made.serves, decide_eq_true_eq] at hserves
  obtain ⟨hphase, hk, -⟩ := hserves
  have hcompiled : m.compiled = ⟨m.name, phase, .project, m.steps⟩ := by
    rw [Made.compiled, hphase, hk, hkind]
  rw [LoadedUnit.nameIfUsed?, Execution.classOf]
  have hruns : (m.unit id).runDoesSomething = !m.steps.isEmpty := rfl
  rw [hruns]
  cases hsteps : m.steps.isEmpty with
  | true => rfl
  | false =>
    have hname : (m.unit id).compiled.name = m.name := rfl
    simp only [Bool.not_false, if_true, Adapter.resolve, hname, hr, hcompiled]
    rfl

/-- **The adapter of a script finds its classes** in a scope that sees what the batch has
exported. -/
theorem classes (h : s.Succeeds used x pre main a) (hkind : s.kind = .project) {t : ScopeTree}
    {target : BuildTarget} (htarget : target.kind = .project)
    (hr : ∀ n c, x n = some c → t.resolve target.scope n = .ok c) :
    a.classes t target = .ok
      (Execution.classOf .preamble (pre.elim "" Made.name) (pre.elim [] Made.steps),
        Execution.classOf .body main.name main.steps) := by
  obtain ⟨id, rfl⟩ := h.adapter
  have hpre : Adapter.resolve t target.scope ((pre.map (·.unit id)) >>= LoadedUnit.nameIfUsed?) =
      .ok (Execution.classOf .preamble (pre.elim "" Made.name) (pre.elim [] Made.steps)) := by
    cases pre with
    | none => rfl
    | some m =>
      exact resolve_unit (h.preamble m rfl) hkind
        (hr _ _ (h.exports m (List.mem_append_left _ (List.mem_singleton_self m)))) id
  have hmain := resolve_unit h.body hkind
    (hr _ _ (h.exports main (List.mem_append_right _ (List.mem_singleton_self main)))) id
  have hfor : ¬target.kind ≠ s.kind := fun hne => hne (htarget.trans hkind.symm)
  simp only [Adapter.classes, Adapter.ofScript, hpre, hmain, if_neg hfor]
  rfl

/-- A class that the adapter names was exported. -/
theorem exists_export (h : s.Succeeds used x pre main a) {n : String}
    (hn : n ∈ a.preambleClass.toList ++ a.bodyClass.toList) : ∃ c, x n = some c := by
  obtain ⟨id, rfl⟩ := h.adapter
  have hname {m : Made} (hm : n ∈ ((m.unit id).nameIfUsed?).toList) : n = m.name := by
    rw [LoadedUnit.nameIfUsed?] at hm
    split at hm
    · exact List.mem_singleton.mp hm
    · cases hm
  rcases List.mem_append.mp hn with hn | hn
  · cases pre with
    | none => cases hn
    | some m =>
      have hm := h.exports m (List.mem_append_left _ (List.mem_singleton_self m))
      exact ⟨_, (congrArg x (hname hn)).trans hm⟩
  · have hm := h.exports main (List.mem_append_right _ (List.mem_singleton_self main))
    exact ⟨_, (congrArg x (hname hn)).trans hm⟩

end Script.Succeeds

/-! ## 3. Opening what a batch has packaged -/

/-- A new scope below one that exposes some classes sees them. -/
theorem ScopeTree.Exposes.resolve_child {t : ScopeTree} {id : Nat}
    {x : String → Option CompiledClass}
    (h : t.Exposes id x) (ht : t.Sound) : ∃ above, t.scope? id = some above ∧
      ∀ child n c, x n = some c → (t.grown id above child).resolve t.slots.length n = .ok c := by
  obtain ⟨above, habove, -, hclasses⟩ := h
  exact ⟨above, habove, fun child n c hn => ht.resolve_grown habove ((hclasses n).trans hn) child⟩

namespace Precompiler

/-- A batch that answers has begun in order, and has left what its scripts have. -/
theorem Schedules.exists_leaving (horder : p.layout.InOrder L used w) (hfit : p.layout.Fitting)
    (htakes : ∀ s ∈ used, p.layout.Takes s) (hs : ∀ s ∈ scripts, s ∈ used)
    (h : p.Schedules root scripts w (.ok report) v) :
    ∃ scope made w₀ times w₁, p.Opens L used root scope made w w₀ ∧
      p.Leaving L scope made times scripts w₀ w₁ (.ok report) v := by
  cases hroot : w.scopes.isLive root with
  | true =>
    obtain ⟨scope, made, w₀, ho⟩ := horder.opens hfit hroot
    have hworkers : (p.withWorkers p.workers).Schedules root scripts w (.ok report) v := h
    obtain ⟨times, w₁, hl⟩ := ho.leaving hfit htakes hs hworkers
    exact ⟨scope, made, w₀, times, w₁, ho, hl⟩
  | false =>
    have hopen := run_opening_released (p := p) hroot scripts
    generalize hr : (.ok report : Except BuildError BatchReport) = r at h
    cases h with
    | refused => cases hr
    | finished hrun =>
      rw [hopen] at hrun
      cases hrun

/-- **What a batch has packaged opens**, below any live scope of any session, and exposes what the
scope of the batch exports. -/
theorem Leaving.run_openOutput {r : Except BuildError BatchReport}
    (h : p.Leaving L scope made times scripts w₀ w₁ r v) (h₀ : p.Begins L used root scope made w₀)
    (hfit : p.layout.Fitting) (htakes : ∀ s ∈ used, p.layout.Takes s) (hs : ∀ s ∈ scripts, s ∈ used)
    (hfiles : u.files = v.files) (hsound : u.scopes.Sound) (htop : u.scopes.isLive top = true) :
    ∃ scopes log, Job.run (p.layout.openOutput top).run u =
        (.ok u.scopes.slots.length, { u with scopes, log }) ∧ scopes.Sound ∧
      scopes.Exposes u.scopes.slots.length
        (p.exportsAfter scope (acceptedOf scripts) made times) := by
  obtain ⟨sc, hsc⟩ := Option.isSome_iff_exists.mp htop
  have hpackaged := hfiles ▸ h.closed.packaged
  have hstands : Standing (inside L) u.files p.layout.root L :=
    hfiles ▸ (h.ended.standing h₀).stays (h.closed.packaged.others.mono
      ((packaged_subset L).trans (subtree_subset_inside L _)))
  exact hpackaged.run_openOutput hstands hfit (h.carries h₀.madeFrom htakes hs) hsound hsc

/-- A script whose phases compile succeeds, unless it is refused. -/
theorem Schedules.exists_success (horder : p.layout.InOrder L used w) (hfit : p.layout.Fitting)
    (htakes : ∀ s ∈ used, p.layout.Takes s) (hs : ∀ s ∈ scripts, s ∈ used)
    (h : p.Schedules root scripts w (.ok report) v) (hacc : (i, s) ∈ acceptedOf scripts)
    (hplan : ∀ phase, (s.plan p.compiler phase).isOk = true) :
    ∃ success, report.scripts[i]? = some ⟨s.id, .ok success⟩ := by
  obtain ⟨scope, made, w₀, times, w₁, -, hl⟩ := h.exists_leaving horder hfit htakes hs
  obtain ⟨c, g, hr⟩ :=
    Cache.scriptOn_of_plan (c := p.layout.cache) scope hplan (times i) (stageOf made)
  rw [Except.ok.inj hl.report, reportsAt_of_accepted hacc, scriptOn_ok hr]
  exact ⟨_, rfl⟩

/-- **What fails for one script is never seen when another one is applied.**  In a build that began
empty, whatever a batch packages opens, and each class that the adapter of a successful script names
is, below the opened output, the one that the script has loaded in the batch. -/
theorem compileScripts_isolated (hfit : p.layout.Fitting) (htakes : ∀ s ∈ used, p.layout.Takes s)
    (h : p.layout.Reached L used w) (hs : ∀ s ∈ scripts, s ∈ used)
    (hschedule : p.Schedules root scripts w (.ok report) v) (hfiles : u.files = v.files)
    (hsound : u.scopes.Sound) (htop : u.scopes.isLive top = true) :
    ∃ output u', Job.run (p.layout.openOutput top).run u = (.ok output, u') ∧
      ∀ (i : Nat) (s : Script) (success : ScriptSuccess), scripts[i]? = some s →
        report.scripts[i]? = some ⟨s.id, .ok success⟩ →
        ∀ n ∈ success.adapter.preambleClass.toList ++ success.adapter.bodyClass.toList,
          ∃ c, v.scopes.resolve report.scope n = .ok c ∧ ∀ child, ∃ id u'',
            Job.run (Attempt.newScope output child).run u' = (.ok id, u'') ∧
              u''.scopes.resolve id n = .ok c := by
  obtain ⟨scope, made, w₀, times, w₁, ho, hl⟩ :=
    hschedule.exists_leaving (h.inOrder hfit htakes) hfit htakes hs
  have hbegins := ho.opened.begins
  obtain ⟨scopes, log, hopen, hsound', hexposes⟩ :=
    hl.run_openOutput hbegins hfit htakes hs hfiles hsound htop
  obtain ⟨above, habove, hresolve⟩ := hexposes.resolve_child hsound'
  obtain ⟨sc, hsc, -, -, -, -, hclasses⟩ := hl.ended.exports (allApart_acceptedOf scripts) hbegins
  obtain ⟨sc', hsc', hlocked⟩ := hl.closed.scopes
  obtain rfl : sc = sc' := Option.some.inj (hsc.symm.trans hsc')
  have hv : v.scopes.Sound := hlocked ▸ (hl.ended.keeps.scopes.sound hbegins.sound).set hsc rfl
  have hvscope : v.scopes.scope? scope = some { sc with locked := true } := by
    rw [hlocked, ScopeTree.scope?_set (ScopeTree.lt_of_scope? hsc), if_pos rfl]
  refine ⟨_, _, hopen, fun i s success hscript hreport n hn => ?_⟩
  obtain ⟨pre, main, hsucceeds⟩ := hl.succeeds hbegins.madeFrom htakes hs hscript hreport
  obtain ⟨c, hc⟩ := hsucceeds.exists_export hn
  refine ⟨c, ?_, fun child => ⟨_, _, Attempt.run_newScope habove child, hresolve child n c hc⟩⟩
  rw [Except.ok.inj hl.report]
  exact hv.resolve_exported hvscope ((hclasses n).trans hc)

/-- The first script of a small batch succeeds, though the second one crashes its compiler. -/
theorem smallScripts_succeeds :
    let w := (Job.run BuildLayout.small.cache.create.run BuildLayout.bareWorld).2
    ∃ report v success, smallPrecompiler.Schedules 0 smallScripts w (.ok report) v ∧
      report.scripts[0]? = some ⟨"one", .ok success⟩ := by
  have hfit : smallPrecompiler.layout.Fitting := BuildLayout.fitting_small
  have hs : ∀ s ∈ smallScripts, s ∈ {s | s ∈ smallScripts} := fun _ h => h
  obtain ⟨t, hrun, horder⟩ := BuildLayout.empty_bareWorld.run_create hfit {s | s ∈ smallScripts}
  rw [hrun]
  have hroot : { BuildLayout.bareWorld with files := t }.scopes.isLive 0 = true := rfl
  obtain ⟨scope, made, w₀, ho⟩ := horder.opens (p := smallPrecompiler) hfit hroot
  have hschedule : (smallPrecompiler.withWorkers 2).Schedules 0 smallScripts
      { BuildLayout.bareWorld with files := t } _ _ :=
        smallPrecompiler.schedules_compileScripts 0 _ _
  obtain ⟨times, w₁, hl⟩ := ho.leaving hfit takes_smallScripts hs hschedule
  rw [hl.report] at hschedule
  have hplan : ∀ phase,
      ((smallScripts.head (by decide)).plan smallPrecompiler.compiler phase).isOk =
      true := fun phase => by cases phase <;> decide +kernel
  have hacc : (0, smallScripts.head (by decide)) ∈ acceptedOf smallScripts := by decide +kernel
  obtain ⟨success, hsuccess⟩ :=
    hschedule.exists_success horder hfit takes_smallScripts hs hacc hplan
  exact ⟨_, _, success, hschedule, hsuccess⟩

theorem unmistaken_smallScripts :
    Unmistaken {s | s ∈ smallScripts} (smallScripts.head (by decide)) := by
  intro other hother _
  simp only [smallScripts, Set.mem_ofPred_eq, List.mem_cons, List.not_mem_nil, or_false] at hother
  rcases hother with rfl | rfl <;> rfl

/-- The theorem for the first batch of a build, seen in a new session. -/
theorem compileScripts_isolated_one :
    let w := (Job.run BuildLayout.small.cache.create.run BuildLayout.bareWorld).2
    ∃ report v success output u' , smallPrecompiler.Schedules 0 smallScripts w (.ok report) v ∧
      report.scripts[0]? = some ⟨"one", .ok success⟩ ∧
      Job.run (BuildLayout.small.openOutput 0).run { BuildLayout.bareWorld with files := v.files } =
        (.ok output, u') ∧
      ∀ n ∈ success.adapter.preambleClass.toList ++ success.adapter.bodyClass.toList,
        ∃ c, v.scopes.resolve report.scope n = .ok c ∧ ∀ child, ∃ id u'',
          Job.run (Attempt.newScope output child).run u' = (.ok id, u'') ∧
            u''.scopes.resolve id n = .ok c := by
  intro w
  obtain ⟨report, v, success, hschedule, hsuccess⟩ := smallScripts_succeeds
  have htop : ScopeTree.isLive (.root "core") 0 = true := rfl
  obtain ⟨output, u', hopen, hresolve⟩ := compileScripts_isolated (p := smallPrecompiler)
    (u := { BuildLayout.bareWorld with files := v.files }) BuildLayout.fitting_small
    takes_smallScripts (.start BuildLayout.empty_bareWorld) (fun _ h => h) hschedule rfl
    (ScopeTree.sound_root "core") htop
  exact ⟨report, v, success, output, u', hschedule, hsuccess, hopen,
    hresolve 0 (smallScripts.head (by decide)) success rfl hsuccess⟩

end Precompiler

/-! ## 4. Applying -/

/-- What applying an adapter does to a new project whose scope lies below the opened output. -/
def BuildLayout.applied (b : BuildLayout) (a : Adapter) (top : Nat) (child project : String)
    (known : List String) : Attempt BuildError (Execution.Result ApplyFailure Unit) := do
  let output ← b.openOutput top
  let scope ← Attempt.adapt .scope (Attempt.newScope output child)
  ExceptT.lift (a.apply (.start (.fresh .project project scope known)))

namespace Precompiler

/-- **A script that compiled does what it says.**  Take a build that began empty, any batch and any
schedule.  When the adapter of a project script with a successful report is applied to a new project
through the opened output, then its journal, properties and plugins, and whether it fails, are those
of following the statements of the script. -/
theorem compileScripts_applies (hfit : p.layout.Fitting) (htakes : ∀ s ∈ used, p.layout.Takes s)
    (h : p.layout.Reached L used w) (hs : ∀ s ∈ scripts, s ∈ used)
    (hschedule : p.Schedules root scripts w (.ok report) v) (hscript : scripts[i]? = some s)
    (hreport : report.scripts[i]? = some ⟨s.id, .ok success⟩) (hkind : s.kind = .project)
    (hsource : Unmistaken used s) (hfiles : u.files = v.files) (hsound : u.scopes.Sound)
    (htop : u.scopes.isLive top = true) (child project : String) (known : List String) :
    ∃ pre main result u', statementsOf (split s.source).preamble = .ok pre ∧
      statementsOf (split s.source).body = .ok main ∧
      Job.run (p.layout.applied success.adapter top child project known).run u = (.ok result, u') ∧
      Execution.Agrees known result
        (Effects.ofScript known (pre.flatMap Statement.specs) main) := by
  obtain ⟨scope, made, w₀, times, w₁, ho, hl⟩ :=
    hschedule.exists_leaving (h.inOrder hfit htakes) hfit htakes hs
  have hbegins := ho.opened.begins
  obtain ⟨preMade, mainMade, hsucceeds⟩ := hl.succeeds hbegins.madeFrom htakes hs hscript hreport
  obtain ⟨pre, hpre, hpreSteps⟩ := hsucceeds.preamble_statements hsource
  obtain ⟨main, hmain, hmainSteps, hno⟩ := hsucceeds.body_statements hsource
  obtain ⟨scopes, log, hopen, hsound', hexposes⟩ :=
    hl.run_openOutput hbegins hfit htakes hs hfiles hsound htop
  generalize u.scopes.slots.length = output at hopen hexposes
  obtain ⟨above, habove, hresolve⟩ := hexposes.resolve_child hsound'
  -- The scope of the project is new, so it is open and sees all that was packaged.
  let u₂ : World := { u with
    scopes := scopes.grown output above child
    log := log ++ [.scopeCreated child output] }
  have hchild : Job.run (Attempt.adapt BuildError.scope (Attempt.newScope output child)).run
      { u with scopes, log } = (.ok scopes.slots.length, u₂) :=
    Attempt.run_adapt (Attempt.run_newScope habove child)
  have hclasses : success.adapter.classes u₂.scopes
      (.fresh .project project scopes.slots.length known) = _ :=
    hsucceeds.classes hkind rfl (hresolve child)
  have hfresh : u₂.scopes.scope? scopes.slots.length = some (.fresh child (some output)) :=
    ScopeTree.scope?_grown_new habove child
  have hphases := Execution.agrees_phases (Execution.shows_start project scopes.slots.length known)
    hpreSteps hmainSteps hno (preMade.elim "" Made.name) mainMade.name
  obtain ⟨result, u', hrun, hagrees⟩ := Adapter.agrees_apply rfl hclasses hfresh hphases
  refine ⟨pre, main, result, u', hpre, hmain, ?_, hagrees⟩
  rw [applied, Attempt.run_bind_ok hopen, Attempt.run_bind_ok hchild]
  exact Attempt.run_lift hrun

/-- The theorem for the first batch of a build, applied in a new session. -/
theorem compileScripts_applies_one :
    let w := (Job.run BuildLayout.small.cache.create.run BuildLayout.bareWorld).2
    ∃ report v success pre main result u',
      smallPrecompiler.Schedules 0 smallScripts w (.ok report) v ∧
      report.scripts[0]? = some ⟨"one", .ok success⟩ ∧
      statementsOf "plugins \x7b id 'java' \x7d" = .ok pre ∧
      statementsOf "                     \nprintln 'x'" = .ok main ∧
      Job.run (BuildLayout.small.applied success.adapter 0 "app" "app" ["java"]).run
        { BuildLayout.bareWorld with files := v.files } = (.ok result, u') ∧
      Execution.Agrees ["java"] result
        (Effects.ofScript ["java"] (pre.flatMap Statement.specs) main) := by
  intro w
  obtain ⟨report, v, success, hschedule, hsuccess⟩ := smallScripts_succeeds
  have htop : ScopeTree.isLive (.root "core") 0 = true := rfl
  obtain ⟨pre, main, result, u', hpre, hmain, hrun, hagrees⟩ := compileScripts_applies
    (p := smallPrecompiler) (u := { BuildLayout.bareWorld with files := v.files })
    BuildLayout.fitting_small takes_smallScripts (.start BuildLayout.empty_bareWorld) (fun _ h => h)
    hschedule (s := smallScripts.head (by decide)) rfl hsuccess rfl unmistaken_smallScripts rfl
    (ScopeTree.sound_root "core") htop "app" "app" ["java"]
  have hpreamble : (split (smallScripts.head (by decide)).source).preamble =
    "plugins \x7b id 'java' \x7d" := by decide +kernel
  have hbody : (split (smallScripts.head (by decide)).source).body =
    "                     \nprintln 'x'" := by decide +kernel
  rw [hpreamble] at hpre
  rw [hbody] at hmain
  exact ⟨report, v, success, pre, main, result, u', hschedule, hsuccess, hpre, hmain, hrun, hagrees⟩

end Precompiler

end ScriptPlugins
