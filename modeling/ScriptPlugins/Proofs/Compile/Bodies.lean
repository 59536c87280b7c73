import ScriptPlugins.Compile.Unit
import ScriptPlugins.Proofs.Job.Preserving
import ScriptPlugins.Proofs.Run.Effects

/-!
# Bodies — which bodies compile, and into what

The hook of a body sees steps, not statements.  A plugins block leaves one step for each plugin that
it requests, so the hook rejects a body at its first request; an id that is requested twice is found
before that.  A block that requests nothing leaves no step, and no hook finds it.  All other
statements become one step each.
-/

namespace ScriptPlugins

open ScriptPlugins.Language

/-! ## 1. Statements and their steps -/

/-- The step that a statement becomes; a plugins block becomes its requests instead. -/
def Language.Statement.step? (s : Statement) : Option Step :=
  match s.form with
  | .plugins _ => none
  | .println text => some ⟨s.line, .println text⟩
  | .applyPlugin id => some ⟨s.line, .applyPlugin id⟩
  | .setProperty key value => some ⟨s.line, .setProperty key value⟩

/-- All steps that a statement of a body becomes. -/
def Language.Statement.steps (s : Statement) : List Step :=
  s.specs.map PluginSpec.step ++ s.step?.toList

/-- Whether a statement is a plugins block. -/
def Language.Statement.isBlock (s : Statement) : Prop := ∃ specs, s.form = .plugins specs

section Lowering

variable {known : Requested} {specs : List PluginSpec} {s : Statement}
  {ss : List Statement} {t : Step}

theorem line_of_step? (h : s.step? = some t) : t.line = s.line ∧ t.action.isRequest = false := by
  obtain ⟨line, form⟩ := s
  cases form <;> cases h <;> exact ⟨rfl, rfl⟩

theorem step?_eq_none_iff : s.step? = none ↔ s.isBlock := by
  obtain ⟨line, form⟩ := s
  cases form <;> simp [Statement.step?, Statement.isBlock]

/-- A statement requests nothing exactly if it is no plugins block, or an empty one. -/
theorem specs_eq_nil_iff : s.specs = [] ↔ ∀ specs, s.form = .plugins specs → specs = [] := by
  obtain ⟨line, form⟩ := s
  cases form <;> simp [Statement.specs]

/-! ## 2. Lowering -/

/-- A body is lowered as one block of all its requests would be, with the other steps in between. -/
theorem lower_body (known : Requested) (ss : List Statement) :
    lower .body known ss =
      (lowerSpecs known (ss.flatMap Statement.specs)).map fun _ => ss.flatMap Statement.steps := by
  induction ss generalizing known with
  | nil => rfl
  | cons s ss ih =>
    rw [lower, List.flatMap_cons, List.flatMap_cons, lowerSpecs_append]
    obtain ⟨line, form⟩ := s
    cases form with
    | plugins specs =>
      show lowerSpecs known specs >>= _ = Except.map _ (lowerSpecs known specs >>= _)
      cases h : lowerSpecs known specs with
      | error e => rfl
      | ok r =>
        obtain ⟨steps, known'⟩ := r
        obtain ⟨rfl, -⟩ := lowerSpecs_eq_ok h
        -- What the block requests is known to the statements behind it.
        show lower .body known' ss >>= _ =
          Except.map _ (lowerSpecs known' (ss.flatMap Statement.specs) >>= _)
        rw [ih]
        cases lowerSpecs known' (ss.flatMap Statement.specs) with
        | error e => rfl
        | ok r =>
          show Except.ok (specs.map PluginSpec.step ++ ss.flatMap Statement.steps) = _
          simp [Except.map, bind, Except.bind, pure, Except.pure, Statement.steps, Statement.specs,
            Statement.step?]
    | _ =>
      show lower .body known ss >>= _ =
        Except.map _ (lowerSpecs known (ss.flatMap Statement.specs) >>= _)
      rw [ih]
      cases lowerSpecs known (ss.flatMap Statement.specs) <;> rfl

/-- Lowering ends at the first id that is requested again, and says where it was requested first. -/
theorem lowerSpecs_eq_error {e : CompileError} (h : lowerSpecs known specs = .error e) :
    ∃ before again after line, specs = before ++ again :: after ∧ (before.map PluginSpec.id).Nodup ∧
      (∀ b ∈ before, known.lookup b.id = none) ∧
      ((∃ first ∈ before, first.id = again.id ∧ first.line = line) ∨
        again.id ∉ before.map PluginSpec.id ∧ known.lookup again.id = some line) ∧
      e = .syntaxFault again.line (.requestedBefore again.id line) := by
  induction specs generalizing known with
  | nil => cases h
  | cons spec specs ih =>
    rw [lowerSpecs] at h
    cases hlookup : known.lookup spec.id with
    | some line =>
      rw [hlookup] at h
      cases h
      exact ⟨[], spec, specs, line, rfl, .nil, by simp, .inr ⟨by simp, hlookup⟩, rfl⟩
    | none =>
      rw [hlookup] at h
      have hrest : lowerSpecs ((spec.id, spec.line) :: known) specs = .error e := by
        cases hr : lowerSpecs ((spec.id, spec.line) :: known) specs with
        | error e' => rw [hr] at h; exact h
        | ok r => rw [hr] at h; cases h
      -- An id that is requested again in the rest was requested there, here, or earlier.
      obtain ⟨before, again, after, line, rfl, hnodup, hnew, hfirst, rfl⟩ := ih hrest
      have hother {b : PluginSpec} (hb : b ∈ before) :
          b.id ≠ spec.id ∧ known.lookup b.id = none := by
        have hlookup' := hnew b hb
        rw [lookup_request] at hlookup'
        split at hlookup'
        · cases hlookup'
        next hne => exact ⟨hne, hlookup'⟩
      refine ⟨spec :: before, again, after, line, rfl, ?_, ?_, ?_, rfl⟩
      · rw [List.map_cons, List.nodup_cons]
        refine ⟨fun hmem => ?_, hnodup⟩
        obtain ⟨b, hb, he⟩ := List.mem_map.mp hmem
        exact (hother hb).1 he
      · intro b hb
        rcases List.mem_cons.mp hb with rfl | hb
        · exact hlookup
        · exact (hother hb).2
      · rcases hfirst with ⟨first, hmem, hid, hline⟩ | ⟨hnot, hknown⟩
        · exact .inl ⟨first, List.mem_cons_of_mem _ hmem, hid, hline⟩
        · rw [lookup_request] at hknown
          split at hknown
          next hid =>
            cases hknown
            exact .inl ⟨spec, List.mem_cons_self, hid.symm, rfl⟩
          next hne =>
            refine .inr ⟨?_, hknown⟩
            rw [List.map_cons, List.mem_cons, not_or]
            exact ⟨hne, hnot⟩

/-- Why the requests in a body are refused: the first id that is requested again, or if there is
none, the first request. -/
inductive BodyRefusal (requests : List PluginSpec) : CompileError → Prop
  | again {before after : List PluginSpec} {first again : PluginSpec}
      (h : requests = before ++ again :: after) (hbefore : (before.map PluginSpec.id).Nodup)
      (hfirst : first ∈ before) (hid : first.id = again.id) :
      BodyRefusal requests (.syntaxFault again.line (.requestedBefore again.id first.line))
  | rejected {first : PluginSpec} {rest : List PluginSpec} (h : requests = first :: rest)
      (hnodup : (requests.map PluginSpec.id).Nodup) : BodyRefusal requests (.rejected first.line)

/-- The requests of a body are the steps that its hook rejects. -/
theorem find?_steps (ss : List Statement) :
    (ss.flatMap Statement.steps).find? (fun t => !Hook.bodyVerifier.accepts t) =
      (ss.flatMap Statement.specs).head?.map PluginSpec.step := by
  -- Of the steps of one statement the hook rejects the requests and no other.
  have hone (s : Statement) : s.steps.filter (fun t => !Hook.bodyVerifier.accepts t) =
      s.specs.map PluginSpec.step := by
    rw [Statement.steps, List.filter_append]
    have hrequests : (s.specs.map PluginSpec.step).filter (fun t => !Hook.bodyVerifier.accepts t) =
        s.specs.map PluginSpec.step := by
      refine List.filter_eq_self.mpr fun t ht => ?_
      obtain ⟨spec, -, rfl⟩ := List.mem_map.mp ht
      rfl
    have hother : s.step?.toList.filter (fun t => !Hook.bodyVerifier.accepts t) = [] := by
      refine List.filter_eq_nil_iff.mpr fun t ht => ?_
      have hrequest := (line_of_step? (Option.mem_toList.mp ht)).2
      simp [Hook.accepts, hrequest]
    rw [hrequests, hother, List.append_nil]
  rw [← List.head?_filter, List.filter_flatMap]
  simp only [hone]
  rw [← List.map_flatMap, List.head?_map]

theorem flatMap_steps (h : ss.flatMap Statement.specs = []) :
    ss.flatMap Statement.steps = ss.filterMap Statement.step? := by
  induction ss with
  | nil => rfl
  | cons s ss ih =>
    rw [List.flatMap_cons, List.append_eq_nil_iff] at h
    rw [List.flatMap_cons, ih h.2, Statement.steps, h.1, List.filterMap_cons]
    cases s.step? <;> rfl

theorem stepsOf_body {source : String} (h : statementsOf source = .ok ss) :
    stepsOf .body .bodyVerifier source =
      lowerSpecs [] (ss.flatMap Statement.specs) >>= fun _ =>
        (ss.flatMap Statement.specs).head?.elim (.ok (ss.filterMap Statement.step?)) fun first =>
          .error (.rejected first.line) := by
  rw [stepsOf, h]
  show lower .body [] ss >>= _ = _
  rw [lower_body]
  cases lowerSpecs [] (ss.flatMap Statement.specs) with
  | error e => rfl
  | ok r =>
    simp only [Except.map, bind, Except.bind, find?_steps]
    cases hrequests : ss.flatMap Statement.specs with
    | nil => rw [flatMap_steps hrequests]; rfl
    | cons first rest => rfl

/-- A body without requests becomes its other statements. -/
theorem stepsOf_body_eq_ok {source : String} (h : statementsOf source = .ok ss)
    (hnone : ss.flatMap Statement.specs = []) :
    stepsOf .body .bodyVerifier source = .ok (ss.filterMap Statement.step?) := by
  rw [stepsOf_body h, hnone]
  rfl

/-- A body with requests is refused, in the one way that they give. -/
theorem stepsOf_body_eq_error {source : String} (h : statementsOf source = .ok ss)
    (hsome : ss.flatMap Statement.specs ≠ []) :
    ∃ e, stepsOf .body .bodyVerifier source = .error e ∧
      BodyRefusal (ss.flatMap Statement.specs) e := by
  rw [stepsOf_body h]
  cases hlower : lowerSpecs [] (ss.flatMap Statement.specs) with
  | error e =>
    obtain ⟨before, again, after, line, hspecs, hnodup, -, hfirst, rfl⟩ :=
      lowerSpecs_eq_error hlower
    -- Nothing is known in advance, so the first request of the id is in the body, too.
    obtain ⟨first, hmem, hid, rfl⟩ := hfirst.resolve_right fun hknown => by cases hknown.2
    exact ⟨_, rfl, .again hspecs hnodup hmem hid⟩
  | ok r =>
    obtain ⟨steps, known⟩ := r
    obtain ⟨-, hnodup, -, -⟩ := lowerSpecs_eq_ok hlower
    obtain ⟨first, rest, hcons⟩ := List.exists_cons_of_ne_nil hsome
    refine ⟨.rejected first.line, ?_, .rejected hcons hnodup⟩
    rw [hcons]
    rfl

end Lowering

/-! ## 3. Compiling -/

section Compiling

variable {k : UnitKey} {hook : Hook} {source : String} {w w' : World} {steps : List Step}

/-- A file is written once its directory is made. -/
def FileTree.WritesInto (t : FileTree) (dir path : Path) (bytes : ByteArray) (t' : FileTree) :
    Prop :=
  ∃ t₁, t.apply (.makeDirectories dir) = (.ok (), t₁) ∧
    t₁.apply (.writeFile path bytes) = (.ok (), t')

/-- The files of a unit are written, its class first. -/
def UnitKey.Writes (k : UnitKey) (c : CompiledClass) (m : Metadata) (t t' : FileTree) : Prop :=
  ∃ t₁, t.WritesInto k.classesDir (classFile k.classesDir c.name) c.print.toUTF8 t₁ ∧
    t₁.WritesInto k.metadataDir (metadataFile k.metadataDir) m.print.toUTF8 t'

/-- A source that is refused is compiled into nothing. -/
theorem run_compile_refused {e : CompileError} (h : stepsOf k.phase hook source = .error e) :
    Job.run (k.compile hook source).run w = (.error e, w) := by
  rw [UnitKey.compile, Attempt.run_bind_error (Attempt.run_of h w)]

/-- What is left to do once the steps are known. -/
theorem run_compile_steps (h : stepsOf k.phase hook source = .ok steps) :
    Job.run (k.compile hook source).run w = Job.run (do
      discard <| Attempt.adapt CompileError.output (writeClass k.classesDir (k.classOf steps))
      Attempt.adapt CompileError.metadata (writeMetadata k.metadataDir (k.metadataOf steps w.now))
      Attempt.report (.unitCompiled k.className k.phase.name steps.length) :
        Attempt CompileError Unit).run w := by
  rw [UnitKey.compile, Attempt.run_bind_ok (Attempt.run_of h w),
    Attempt.run_bind_ok (Attempt.run_observe w)]

theorem run_writeClass_eq_ok {dir path : Path} {c : CompiledClass} :
    Job.run (writeClass dir c).run w = (.ok path, w') ↔ path = classFile dir c.name ∧
      ∃ t, w.files.WritesInto dir (classFile dir c.name) c.print.toUTF8 t ∧
        w' = { w with files := t } := by
  constructor
  · intro h
    obtain ⟨_, w₁, hmake, h⟩ := Attempt.of_run_bind_ok h
    obtain ⟨_, w₂, hwrite, h⟩ := Attempt.of_run_bind_ok h
    obtain ⟨t₁, ht₁, rfl⟩ := Attempt.of_run_change hmake
    obtain ⟨t₂, ht₂, rfl⟩ := Attempt.of_run_change hwrite
    cases h
    exact ⟨rfl, t₂, ⟨t₁, ht₁, ht₂⟩, rfl⟩
  · rintro ⟨rfl, t₂, ⟨t₁, ht₁, ht₂⟩, rfl⟩
    rw [writeClass, Attempt.run_bind_ok (Attempt.run_change ht₁)]
    exact Attempt.run_bind_ok (Attempt.run_change (w := { w with files := t₁ }) ht₂)

theorem run_writeMetadata_eq_ok {dir : Path} {m : Metadata} :
    Job.run (writeMetadata dir m).run w = (.ok (), w') ↔
      ∃ t, w.files.WritesInto dir (metadataFile dir) m.print.toUTF8 t ∧
        w' = { w with files := t } := by
  constructor
  · intro h
    obtain ⟨_, w₁, hmake, h⟩ := Attempt.of_run_bind_ok h
    obtain ⟨t₁, ht₁, rfl⟩ := Attempt.of_run_change hmake
    obtain ⟨t₂, ht₂, rfl⟩ := Attempt.of_run_change h
    exact ⟨t₂, ⟨t₁, ht₁, ht₂⟩, rfl⟩
  · rintro ⟨t₂, ⟨t₁, ht₁, ht₂⟩, rfl⟩
    rw [writeMetadata, Attempt.run_bind_ok (Attempt.run_change ht₁)]
    exact Attempt.run_change (w := { w with files := t₁ }) ht₂

/-- A source that is right compiles exactly if its files can be written. -/
theorem run_compile_eq_ok (h : stepsOf k.phase hook source = .ok steps) :
    Job.run (k.compile hook source).run w = (.ok (), w') ↔
      ∃ t, k.Writes (k.classOf steps) (k.metadataOf steps w.now) w.files t ∧ w' = { w with
        files := t
        log := w.log ++ [.unitCompiled k.className k.phase.name steps.length] } := by
  rw [run_compile_steps h]
  constructor
  · intro hrun
    -- The class is written before the metadata.
    obtain ⟨_, w₁, hclass, hrun⟩ := Attempt.of_run_bind_ok hrun
    obtain ⟨_, w₂, hmetadata, hrun⟩ := Attempt.of_run_bind_ok hrun
    obtain ⟨path, w₁', hclass, hunit⟩ := Attempt.of_run_bind_ok hclass
    cases hunit
    obtain ⟨r, hclass, hr⟩ := Attempt.of_run_adapt hclass
    obtain rfl := mapError_eq_ok hr.symm
    obtain ⟨r', hmetadata, hr'⟩ := Attempt.of_run_adapt hmetadata
    obtain rfl := mapError_eq_ok hr'.symm
    obtain ⟨-, t₁, hw₁, rfl⟩ := run_writeClass_eq_ok.mp hclass
    obtain ⟨t₂, hw₂, rfl⟩ := run_writeMetadata_eq_ok.mp hmetadata
    cases hrun
    exact ⟨t₂, ⟨t₁, hw₁, hw₂⟩, rfl⟩
  · rintro ⟨t₂, ⟨t₁, hw₁, hw₂⟩, rfl⟩
    have hclass : Job.run (discard (Attempt.adapt CompileError.output
        (writeClass k.classesDir (k.classOf steps)))).run w = (.ok (), { w with files := t₁ }) :=
      Attempt.run_bind_ok (Attempt.run_adapt (run_writeClass_eq_ok.mpr ⟨rfl, t₁, hw₁, rfl⟩))
    have hmetadata : Job.run (Attempt.adapt CompileError.metadata
        (writeMetadata k.metadataDir (k.metadataOf steps w.now))).run { w with files := t₁ } =
          (.ok (), { w with files := t₂ }) :=
      Attempt.run_adapt (run_writeMetadata_eq_ok.mpr ⟨t₂, hw₂, rfl⟩)
    rw [Attempt.run_bind_ok hclass, Attempt.run_bind_ok hmetadata]
    rfl

/-- If a source that is right does not compile, its files could not be written. -/
theorem run_compile_eq_error (h : stepsOf k.phase hook source = .ok steps) {e : CompileError}
    (hrun : Job.run (k.compile hook source).run w = (.error e, w')) :
    (∃ cause, e = .output cause) ∨ ∃ cause, e = .metadata cause := by
  rw [run_compile_steps h] at hrun
  rcases Attempt.of_run_bind_error hrun with hclass | ⟨_, w₁, -, hrun⟩
  · rcases Attempt.of_run_bind_error hclass with hclass | ⟨_, _, -, hunit⟩
    · obtain ⟨r, -, hr⟩ := Attempt.of_run_adapt hclass
      obtain ⟨cause, -, rfl⟩ := mapError_eq_error hr.symm
      exact .inl ⟨cause, rfl⟩
    · cases hunit
  · rcases Attempt.of_run_bind_error hrun with hmetadata | ⟨_, _, -, hreport⟩
    · obtain ⟨r, -, hr⟩ := Attempt.of_run_adapt hmetadata
      obtain ⟨cause, -, rfl⟩ := mapError_eq_error hr.symm
      exact .inr ⟨cause, rfl⟩
    · cases hreport

/-- Whatever else is wrong with a source is found before anything is written. -/
theorem run_compile_unchanged {e : CompileError}
    (h : (Job.run (k.compile hook source).run w).1 = .error e)
    (hclass : ∀ cause, e ≠ .output cause) (hmetadata : ∀ cause, e ≠ .metadata cause) :
    (Job.run (k.compile hook source).run w).2 = w := by
  cases hsteps : stepsOf k.phase hook source with
  | error e' => rw [run_compile_refused hsteps]
  | ok steps =>
    rcases run_compile_eq_error hsteps (Prod.ext h rfl) with ⟨cause, he⟩ | ⟨cause, he⟩
    · exact absurd he (hclass cause)
    · exact absurd he (hmetadata cause)

end Compiling

/-! ## 4. Bodies -/

/-- No step of a statement is a request, so a body does something exactly if it has such steps. -/
theorem UnitKey.notes_body (k : UnitKey) (ss : List Statement) (now : Instant) :
    let m := UnitKey.metadataOf { k with phase := .body } (ss.filterMap Statement.step?) now
    m.notes = .buildScript m.runDoesSomething := by
  intro m
  have hrequest : ∀ t ∈ ss.filterMap Statement.step?, (!t.action.isRequest) = true := by
    intro t ht
    obtain ⟨s, -, hs⟩ := List.mem_filterMap.mp ht
    rw [(line_of_step? hs).2]
    rfl
  show ClassNotes.buildScript ((ss.filterMap Statement.step?).any fun t => !t.action.isRequest) =
    .buildScript (!(ss.filterMap Statement.step?).isEmpty)
  cases hsteps : ss.filterMap Statement.step? with
  | nil => rfl
  | cons t ts =>
    rw [List.any_cons, hrequest t (by simp [hsteps])]
    rfl

/-- **What a body compiles into.**  A source that is refused leaves everything as it is, be it that
it has no statements at all, that an id is requested again, or that a plugin is requested.  A source
with statements compiles exactly if they request nothing, so that all plugins blocks are empty, and
the files can be written.  Then the class has the steps of the statements that are no plugins
blocks, one for each of them, in order and with their lines; the metadata says that there are
imperative statements exactly if the body does something.  If anything is requested, the body is
refused at the first id that is requested again or, if there is none, at the first request; if
nothing is, only the files can stand in its way. -/
theorem compile_body (k : UnitKey) (source : String) (w : World) :
    let body : UnitKey := { k with phase := .body }
    let result := Job.run (body.compile .bodyVerifier source).run w
    (∀ line fault, result.1 = .error (.syntaxFault line fault) → result.2 = w) ∧
    (∀ line, result.1 = .error (.rejected line) → result.2 = w) ∧
    (∀ e, statementsOf source = .error e → result = (.error e, w)) ∧
    (∀ s : Statement, (s.step? = none ↔ s.isBlock) ∧ ∀ t, s.step? = some t → t.line = s.line) ∧
    ∀ ss, statementsOf source = .ok ss →
      let requests := ss.flatMap Statement.specs
      let steps := ss.filterMap Statement.step?
      let m := body.metadataOf steps w.now
      (requests = [] ↔ ∀ s ∈ ss, ∀ specs, s.form = .plugins specs → specs = []) ∧
      (result.1 = .ok () ↔ requests = [] ∧ ∃ t, body.Writes (body.classOf steps) m w.files t) ∧
      (result.1 = .ok () → body.Writes (body.classOf steps) m w.files result.2.files ∧
        result.2 = { w with
          files := result.2.files
          log := w.log ++ [.unitCompiled k.className Phase.body.name steps.length] }) ∧
      m.notes = .buildScript m.runDoesSomething ∧
      (requests ≠ [] → ∃ e, BodyRefusal requests e ∧ result = (.error e, w)) ∧
      (requests = [] → ∀ e, result.1 = .error e →
        (∃ cause, e = .output cause) ∨ ∃ cause, e = .metadata cause) := by
  intro body result
  refine ⟨fun line fault h => run_compile_unchanged h (fun _ => nofun) fun _ => nofun,
    fun line h => run_compile_unchanged h (fun _ => nofun) fun _ => nofun,
    fun e h => run_compile_refused (by rw [stepsOf, h]; rfl),
    fun s => ⟨step?_eq_none_iff, fun t ht => (line_of_step? ht).1⟩, fun ss hss => ?_⟩
  intro requests steps m
  -- With requests the body is refused, and without any only the files decide.
  have hfail (hsome : requests ≠ []) : ∃ e, BodyRefusal requests e ∧ result = (.error e, w) := by
    obtain ⟨e, hsteps, hrefusal⟩ := stepsOf_body_eq_error hss hsome
    exact ⟨e, hrefusal, run_compile_refused hsteps⟩
  have hnone (h : result.1 = .ok ()) : requests = [] := by
    by_cases hrequests : requests = []
    · exact hrequests
    · obtain ⟨e, -, he⟩ := hfail hrequests
      rw [he] at h
      cases h
  have hok (h : requests = []) (w' : World) : result = (.ok (), w') ↔
      ∃ t, body.Writes (body.classOf steps) m w.files t ∧ w' = { w with
        files := t
        log := w.log ++ [.unitCompiled k.className Phase.body.name steps.length] } :=
    run_compile_eq_ok (stepsOf_body_eq_ok hss h)
  refine ⟨?_, ⟨fun h => ?_, fun ⟨hrequests, t, ht⟩ => ?_⟩, fun h => ?_,
    k.notes_body ss w.now, hfail,
    fun hrequests e h => run_compile_eq_error (stepsOf_body_eq_ok hss hrequests) (Prod.ext h rfl)⟩
  · exact List.flatMap_eq_nil_iff.trans (forall₂_congr fun _ _ => specs_eq_nil_iff)
  · obtain ⟨t, ht, -⟩ := (hok (hnone h) result.2).mp (Prod.ext h rfl)
    exact ⟨hnone h, t, ht⟩
  · rw [(hok hrequests _).mpr ⟨t, ht, rfl⟩]
  · obtain ⟨t, ht, hw⟩ := (hok (hnone h) result.2).mp (Prod.ext h rfl)
    rw [hw]
    exact ⟨ht, rfl⟩

/-- A block that requests nothing is not found, even behind other statements. -/
example : (stepsOf .body .bodyVerifier "println 'x'\nplugins \x7b \x7d").toOption =
    some [⟨1, .println "x"⟩] := by decide +kernel

end ScriptPlugins
