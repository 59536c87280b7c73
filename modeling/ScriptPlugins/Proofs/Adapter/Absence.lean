import ScriptPlugins.Proofs.Adapter.Running
import ScriptPlugins.Proofs.Cache.History
import ScriptPlugins.Proofs.Compile.Lines

/-!
# Absent classes — an adapter leaves out what does nothing

Whether a class does something is found out when it is compiled, kept in its metadata, and asked for
when the adapter is made.  Wherever it was loaded from, the adapter names just the classes with
steps, and running these is running all.  A target without plugins refuses just the scripts that
request some.
-/

namespace ScriptPlugins

open ScriptPlugins.Language

/-! ## 1. Compiled scripts -/

/-- The class of a phase of a script. -/
def Script.classOf (s : Script) (phase : Phase) (steps : List Step) : CompiledClass :=
  ⟨s.classNameOf phase, phase, s.kind, steps⟩

/-- A scope that sees each class of a script that does something. -/
def Script.SeenFrom (s : Script) (steps : Phase → List Step) (scopes : ScopeTree) (scope : Nat) :
    Prop :=
  ∀ phase, steps phase ≠ [] →
    scopes.resolve scope (s.classNameOf phase) = .ok (s.classOf phase (steps phase))

/-- A compiled script whose units tell what its phases have been compiled to. -/
structure Script.CompiledAs (s : Script) (steps : Phase → List Step) (c : CompiledScript) :
    Prop where
  preamble : ∀ u ∈ c.preamble, u.content = s.unitContent .preamble (steps .preamble)
  absent : c.preamble = none → steps .preamble = []
  body : c.body.content = s.unitContent .body (steps .body)

variable {s : Script} {steps : Phase → List Step} {c : CompiledScript}

/-- A script whose phases compile says what they compile to. -/
theorem Script.content_of_steps
    (h : ∀ phase, stepsOf phase phase.hook (s.sourceOf phase) = .ok (steps phase)) :
    s.content = .ok ⟨if s.hasPreamble then some (s.unitContent .preamble (steps .preamble)) else
      none, s.unitContent .body (steps .body)⟩ := by
  have hplan (phase : Phase) : s.plan .steady phase = .ok (steps phase) := by
    show (stepsOf phase phase.hook (s.sourceOf phase)).mapError _ = _
    rw [h phase]
    rfl
  unfold content preambleContent
  rw [hplan, hplan]
  split <;> rfl

theorem Script.compiledAs_of_content
    (h : ∀ phase, stepsOf phase phase.hook (s.sourceOf phase) = .ok (steps phase))
    (hc : s.content = .ok c.content) : s.CompiledAs steps c := by
  rw [content_of_steps h] at hc
  obtain ⟨hpre, hbody⟩ := ScriptContent.mk.inj (Except.ok.inj hc)
  refine ⟨fun u hu => ?_, fun hnone => ?_, hbody.symm⟩
  · rw [hu] at hpre
    split at hpre
    · exact (Option.some.inj hpre).symm
    · cases hpre
  · rw [hnone] at hpre
    split at hpre
    · cases hpre
    next hno =>
      -- A script without a preamble has nothing there to be compiled.
      have hempty : s.sourceOf .preamble = "" := by simpa [hasPreamble] using hno
      have hsteps := h .preamble
      have hnothing : stepsOf .preamble Phase.preamble.hook "" = .ok [] := by
        unfold stepsOf
        rw [statementsOf_empty]
        rfl
      rw [hempty, hnothing] at hsteps
      exact (Except.ok.inj hsteps).symm

namespace Script.CompiledAs

variable {t : BuildTarget} {scopes : ScopeTree}

theorem compiled_preamble (h : s.CompiledAs steps c) {u : LoadedUnit} (hu : u ∈ c.preamble) :
    u.compiled = s.classOf .preamble (steps .preamble) :=
  congrArg UnitContent.compiled (h.preamble u hu)

theorem compiled_body (h : s.CompiledAs steps c) :
    c.body.compiled = s.classOf .body (steps .body) :=
  congrArg UnitContent.compiled h.body

/-- The names that the adapter has are those of the classes that do something. -/
theorem preambleClass (h : s.CompiledAs steps c) :
    (Adapter.ofScript s c.preamble c.body).preambleClass =
      (doing (c.preamble.map LoadedUnit.compiled)).map CompiledClass.name := by
  show c.preamble >>= LoadedUnit.nameIfUsed? = _
  cases hpre : c.preamble with
  | none => rfl
  | some u =>
    apply LoadedUnit.nameIfUsed?_eq
    rw [h.compiled_preamble hpre]
    exact congrArg UnitContent.runDoesSomething (h.preamble u hpre)

theorem bodyClass (h : s.CompiledAs steps c) :
    (Adapter.ofScript s c.preamble c.body).bodyClass =
      (doing (some c.body.compiled)).map CompiledClass.name := by
  apply LoadedUnit.nameIfUsed?_eq
  rw [h.compiled_body]
  exact congrArg UnitContent.runDoesSomething h.body

theorem doing_preamble_eq_none (h : s.CompiledAs steps c) (hsteps : steps .preamble = []) :
    doing (c.preamble.map LoadedUnit.compiled) = none := by
  cases hpre : c.preamble with
  | none => rfl
  | some u =>
    rw [Option.map_some, h.compiled_preamble hpre]
    exact doing_of_no_steps hsteps

theorem doing_preamble_eq_some (h : s.CompiledAs steps c) (hsteps : steps .preamble ≠ []) :
    doing (c.preamble.map LoadedUnit.compiled) = some (s.classOf .preamble (steps .preamble)) := by
  obtain ⟨u, hpre⟩ := Option.ne_none_iff_exists'.mp fun hnone => hsteps (h.absent hnone)
  rw [hpre, Option.map_some, h.compiled_preamble hpre]
  exact doing_of_steps hsteps

/-- The preamble is named if it has steps. -/
theorem preambleClass_eq (h : s.CompiledAs steps c) :
    (Adapter.ofScript s c.preamble c.body).preambleClass =
      if steps .preamble = [] then none else some (s.classNameOf .preamble) := by
  rw [h.preambleClass]
  split
  next hsteps => rw [h.doing_preamble_eq_none hsteps]; rfl
  next hsteps => rw [h.doing_preamble_eq_some hsteps]; rfl

/-- The body is named if it has steps. -/
theorem bodyClass_eq (h : s.CompiledAs steps c) :
    (Adapter.ofScript s c.preamble c.body).bodyClass =
      if steps .body = [] then none else some (s.classNameOf .body) := by
  rw [h.bodyClass, h.compiled_body]
  split
  next hsteps => rw [doing_of_no_steps hsteps]; rfl
  next hsteps => rw [doing_of_steps hsteps]; rfl

/-- A target that sees the classes with steps is where the adapter runs them. -/
theorem classes_eq (h : s.CompiledAs steps c) (hkind : t.kind = s.kind)
    (hsees : s.SeenFrom steps scopes t.scope) :
    (Adapter.ofScript s c.preamble c.body).classes scopes t =
      .ok (doing (c.preamble.map LoadedUnit.compiled), doing (some c.body.compiled)) := by
  refine Adapter.classes_of_names hkind h.preambleClass h.bodyClass fun d hd => ?_
  rcases List.mem_append.mp hd with hd | hd
  · obtain ⟨hmem, hsteps⟩ := of_mem_doing (Option.mem_toList.mp hd)
    obtain ⟨u, hu, rfl⟩ := Option.map_eq_some_iff.mp hmem
    rw [h.compiled_preamble hu] at hsteps ⊢
    exact hsees .preamble hsteps
  · obtain ⟨hmem, hsteps⟩ := of_mem_doing (Option.mem_toList.mp hd)
    obtain rfl : c.body.compiled = d := Option.some.inj hmem
    rw [h.compiled_body] at hsteps ⊢
    exact hsees .body hsteps

/-- Both classes were compiled for targets of the kind of the script. -/
theorem admits_preamble (h : s.CompiledAs steps c) (hkind : t.kind = s.kind) :
    ∀ d ∈ c.preamble.map LoadedUnit.compiled, t.admits .preamble d = true := by
  intro d hd
  obtain ⟨u, hu, rfl⟩ := Option.map_eq_some_iff.mp hd
  rw [h.compiled_preamble hu]
  simp [BuildTarget.admits, Script.classOf, hkind]

theorem admits_body (h : s.CompiledAs steps c) (hkind : t.kind = s.kind) :
    ∀ d ∈ some c.body.compiled, t.admits .body d = true := by
  rintro d ⟨⟩
  rw [h.compiled_body]
  simp [BuildTarget.admits, Script.classOf, hkind]

end Script.CompiledAs

/-! ## 2. Running what an adapter names -/

section Running

variable {x : Execution} {u : World}

/-- Running the classes that an adapter names is running all classes of the script. -/
theorem Script.CompiledAs.matches_execute (h : s.CompiledAs steps c)
    (hkind : x.target.kind = s.kind) (hsome : x.target.plugins.isSome = true)
    (hsees : s.SeenFrom steps u.scopes x.target.scope) :
    Execution.Matches (Job.run ((Adapter.ofScript s c.preamble c.body).execute x) u).1
      (Job.run (Runner.runOn x (c.preamble.map LoadedUnit.compiled) (some c.body.compiled))
        u).1 := by
  have hmatches := Execution.matches_doing x hsome (h.admits_preamble hkind) (h.admits_body hkind)
  rw [Adapter.run_execute_of_classes (h.classes_eq hkind hsees)]
  cases hs : u.scopes.scope? x.target.scope with
  | none =>
    rw [Runner.run_runOn_of_gone hs, Runner.run_runOn_of_gone hs]
    exact ⟨rfl, rfl⟩
  | some sc =>
    rw [Runner.run_runOn_of_live hs, Runner.run_runOn_of_live hs]
    exact ⟨hmatches.ends, hmatches.target⟩

/-- A class is seen only from a live scope. -/
theorem ScopeTree.scope?_of_resolve {t : ScopeTree} {scope : Nat} {n : String} {d : CompiledClass}
    (h : t.resolve scope n = .ok d) : ∃ sc, t.scope? scope = some sc := by
  cases hs : t.scope? scope with
  | some sc => exact ⟨sc, rfl⟩
  | none =>
    have habove : t.above scope = .error (.released scope) := by
      unfold above chain
      simp only [get, hs]
      rfl
    unfold resolve at h
    rw [habove] at h
    cases h

/-- A target without plugins refuses a preamble with steps, and nothing else for that reason. -/
theorem Script.CompiledAs.execute_without_plugins (h : s.CompiledAs steps c)
    (hkind : x.target.kind = s.kind) (hnone : x.target.plugins = none)
    (hsees : s.SeenFrom steps u.scopes x.target.scope) :
    let ran := (Job.run ((Adapter.ofScript s c.preamble c.body).execute x) u).1
    (ran.1 = .error (.missingPluginManager x.target.name x.target.kind) ↔ steps .preamble ≠ []) ∧
      (steps .preamble ≠ [] → ran.2.target = x.target) := by
  intro ran
  have hran : ran = (Job.run (Runner.runOn x (doing (c.preamble.map LoadedUnit.compiled))
      (doing (some c.body.compiled))) u).1 := by
    show (Job.run (Adapter.execute _ x) u).1 = _
    rw [Adapter.run_execute_of_classes (h.classes_eq hkind hsees)]
  by_cases hsteps : steps .preamble = []
  · refine ⟨⟨fun he => ?_, fun hne => absurd hsteps hne⟩, fun hne => absurd hsteps hne⟩
    -- The body runs alone, and no step of a body asks for plugins in this way.
    rw [hran, h.doing_preamble_eq_none hsteps] at he
    exfalso
    cases hs : u.scopes.scope? x.target.scope with
    | none =>
      rw [Runner.run_runOn_of_gone hs] at he
      cases he
    | some sc =>
      rw [Runner.run_runOn_of_live hs] at he
      exact Execution.phases_none_ne x
        (fun d hd => h.admits_body hkind d (of_mem_doing hd).1) _ _ he
  · obtain ⟨sc, hs⟩ := ScopeTree.scope?_of_resolve (hsees .preamble hsteps)
    have hresult : ran = (.error (.missingPluginManager x.target.name x.target.kind),
        { x with log := [] }) := by
      rw [hran, Runner.run_runOn_of_live hs, h.doing_preamble_eq_some hsteps,
        Execution.phases_of_preamble hnone]
    rw [hresult]
    exact ⟨⟨fun _ => hsteps, fun _ => rfl⟩, fun _ => rfl⟩

end Running

/-! ## 3. Through the cache -/

/-- A preamble has steps if it requests something, to be applied or not. -/
theorem steps_preamble_ne_nil {ss : List Statement} {source : String} {ts : List Step}
    (hss : statementsOf source = .ok ss)
    (h : stepsOf .preamble Phase.preamble.hook source = .ok ts) :
    ts ≠ [] ↔ ss.flatMap Statement.specs ≠ [] := by
  obtain ⟨ss', hss', hlower, -⟩ := stepsOf_eq_ok h
  obtain rfl : ss = ss' := Except.ok.inj (hss.symm.trans hss')
  rw [(lower_preamble_eq_ok hlower).1, ne_eq, List.map_eq_nil_iff]

namespace Cache

variable {cache : Cache} {C M : Location} {used : Set Script} {w : World} {parent : Nat}

/-- **Nobody can tell that a class was left out.**  Take a script whose phases compile, and any
history of the cache.  The adapter made from what the cache loads names each phase that has steps.
Running the classes it names on a project ends as running all classes does, with the same error if
there is one, and leaves the same target.  On a target without plugins it fails for this lack just
if the script requests some, and then it does nothing. -/
theorem compileScript_suppresses (hfits : ∀ s ∈ used, s.FitsIn cache)
    (h : cache.Reached C M used w) (hs : s ∈ used) (hsource : Unmistaken used s)
    (hparent : w.scopes.isLive parent = true) (name : String) {ss : List Statement}
    (hss : statementsOf (s.sourceOf .preamble) = .ok ss)
    (hsteps : ∀ phase, stepsOf phase phase.hook (s.sourceOf phase) = .ok (steps phase)) :
    ∃ compiled w', Job.run (cache.compileInChild .steady s parent name).run w = (.ok compiled, w') ∧
      let a := Adapter.ofScript s compiled.preamble compiled.body
      a.preambleClass = (if steps .preamble = [] then none else some (s.classNameOf .preamble)) ∧
      a.bodyClass = (if steps .body = [] then none else some (s.classNameOf .body)) ∧
      ∀ (x : Execution) (u : World), x.target.kind = s.kind → x.target.Formed →
        s.SeenFrom steps u.scopes x.target.scope →
        let ran := (Job.run (a.execute x) u).1
        let full := (Job.run (Runner.runOn x (compiled.preamble.map LoadedUnit.compiled)
          (some compiled.body.compiled)) u).1
        (s.kind = .project → ran.1 = full.1 ∧ ran.2.target = full.2.target) ∧
          (s.kind ≠ .project →
            (ran.1 = .error (.missingPluginManager x.target.name x.target.kind) ↔
              ss.flatMap Statement.specs ≠ []) ∧
            (ss.flatMap Statement.specs ≠ [] → ran.2.target = x.target)) := by
  obtain ⟨t, hsane⟩ := h.sane hfits
  have hcontent := hsane.content_compileInChild (hfits s hs) hsource hparent name
  rcases hrun : Job.run (cache.compileInChild .steady s parent name).run w with ⟨err | compiled, w'⟩
  · rw [hrun, Script.content_of_steps hsteps] at hcontent
    cases hcontent
  · rw [hrun] at hcontent
    -- What was loaded says what the script says, whether it was compiled now or before.
    have hcompiled : s.CompiledAs steps compiled :=
      Script.compiledAs_of_content hsteps hcontent.symm
    refine ⟨compiled, w', rfl, hcompiled.preambleClass_eq, hcompiled.bodyClass_eq,
      fun x u hkind hformed hsees => ⟨fun hproject => ?_, fun hother => ?_⟩⟩
    · have hmatches := hcompiled.matches_execute hkind (hformed.mpr (hkind.trans hproject)) hsees
      exact ⟨hmatches.ends, hmatches.target⟩
    · rw [← steps_preamble_ne_nil hss (hsteps .preamble)]
      exact hcompiled.execute_without_plugins hkind
        (hformed.plugins_eq_none fun hp => hother (hkind.symm.trans hp)) hsees

/-- A script for settings, which have no plugins, that requests one it would not even apply. -/
def requestingScript : Script :=
  ⟨"a", .settings, "plugins \x7b id 'java' apply false \x7d\nprintln 'x'", none⟩

def requestingSteps : Phase → List Step
  | .preamble => [⟨1, .requestPlugin ⟨"java", none, false⟩⟩]
  | .body => [⟨2, .println "x"⟩]

def requestingClass (phase : Phase) : CompiledClass :=
  requestingScript.classOf phase (requestingSteps phase)

/-- A scope that exports the classes of this script. -/
def requestingScopes : ScopeTree :=
  (ScopeTree.root "core").set 0 { Scope.fresh "core" none with
    classes := ((∅ : Std.ExtTreeMap String CompiledClass).insert (requestingClass .preamble).name
      (requestingClass .preamble)).insert (requestingClass .body).name (requestingClass .body) }

theorem seenFrom_requestingScopes :
    requestingScript.SeenFrom requestingSteps requestingScopes 0 := by
  have hsound : requestingScopes.Sound :=
    (ScopeTree.sound_root "core").set (s := .fresh "core" none) rfl rfl
  have hne : (requestingClass .body).name ≠ requestingScript.classNameOf .preamble :=
    requestingScript.classNameOf_ne.symm
  intro phase _
  refine hsound.resolve_exported rfl ?_
  cases phase with
  | preamble =>
    rw [Std.ExtTreeMap.getElem?_insert, if_neg (by simpa using hne)]
    exact Std.ExtTreeMap.getElem?_insert_self
  | body => exact Std.ExtTreeMap.getElem?_insert_self

/-- The theorem for this script, whose run ends before its body. -/
theorem compileScript_suppresses_requesting :
    let x : Execution := .start (.fresh .settings "app" 0 [])
    ∃ compiled w' u,
      Job.run (small.compileInChild .steady requestingScript 0 "first").run smallWorld =
        (.ok compiled, w') ∧
      let a := Adapter.ofScript requestingScript compiled.preamble compiled.body
      a.preambleClass = some "cp_precompiled_a" ∧ a.bodyClass = some "precompiled_a" ∧
      (Job.run (a.execute x) u).1.1 = .error (.missingPluginManager "app" .settings) ∧
      (Job.run (a.execute x) u).1.2.target = x.target := by
  intro x
  have hfit : requestingScript.FitsIn small := .of_short
    ⟨by decide +kernel, by decide +kernel, by decide +kernel⟩
    ⟨by decide +kernel, by decide +kernel, by decide +kernel⟩ (by decide +kernel)
      (by decide +kernel)
  have hsteps : ∀ phase, stepsOf phase phase.hook (requestingScript.sourceOf phase) =
      .ok (requestingSteps phase) := fun phase => by cases phase <;> decide +kernel
  have hsource : Unmistaken {requestingScript} requestingScript :=
    fun other hother _ => congrArg Script.source hother
  have hroot : smallWorld.scopes.isLive 0 = true := rfl
  have hstart : small.Reached ["c"] ["m"] {requestingScript} smallWorld := .start fresh_smallWorld
  have hstatements : statementsOf (requestingScript.sourceOf .preamble) =
      .ok [⟨1, .plugins [⟨"java", none, false, 1⟩]⟩] := by decide +kernel
  obtain ⟨compiled, w', hrun, hpre, hmain, hall⟩ := compileScript_suppresses
    (fun s hs => (show s = requestingScript from hs) ▸ hfit) hstart rfl hsource hroot
    "first" hstatements hsteps
  obtain ⟨-, hother⟩ := hall x { smallWorld with scopes := requestingScopes } rfl
    (BuildTarget.formed_fresh .settings "app" 0 []) seenFrom_requestingScopes
  obtain ⟨hfails, hnothing⟩ := hother (by decide)
  refine ⟨compiled, w', _, hrun, hpre, hmain, hfails.mpr (by decide), hnothing (by decide)⟩

end Cache

end ScriptPlugins
