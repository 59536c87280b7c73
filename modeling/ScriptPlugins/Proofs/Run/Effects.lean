import ScriptPlugins.Compile.Lowering
import ScriptPlugins.Run.Execution

/-!
# Effects — what a script does to a project, told by its statements

A script is followed as it is written: first the requests of its preamble, then the statements of
its body.  It ends at the first plugin that cannot be found, and what it did before stays done.
Compiled classes do the same.
-/

namespace ScriptPlugins

open ScriptPlugins.Language

/-! ## 1. Following statements -/

/-- What a script has done to a project. -/
structure Effects where
  journal : List TargetEvent
  properties : Std.ExtTreeMap String String
  applied : List String

/-- How a script ends, with the id of a plugin that could not be found, and what it has done. -/
abbrev Effects.Outcome := Except String Unit × Effects

namespace Effects

/-- Nothing yet. -/
def none : Effects := ⟨[], ∅, []⟩

/-- A plugin is applied unless it is there.  Without known ids any plugin is found. -/
def plugin (known : List String) (id : String) (e : Effects) : Outcome :=
  if id ∈ e.applied then (.ok (), e)
  else if known = [] ∨ id ∈ known then
    (.ok (), { e with applied := e.applied ++ [id], journal := e.journal ++ [.pluginApplied id] })
  else (.error id, e)

/-- A request of a plugins block. -/
def spec (known : List String) (s : PluginSpec) (e : Effects) : Outcome :=
  if s.apply then plugin known s.id e else (.ok (), e)

/-- A statement of a body, in which a plugins block requests nothing. -/
def statement (known : List String) (s : Statement) (e : Effects) : Outcome :=
  match s.form with
  | .plugins _ => (.ok (), e)
  | .println text => (.ok (), { e with journal := e.journal ++ [.console text] })
  | .applyPlugin id => plugin known id e
  | .setProperty key value =>
    (.ok (), { e with
      properties := e.properties.insert key value
      journal := e.journal ++ [.propertySet key value] })

/-- One thing after the other, up to the first that cannot be done. -/
def inOrder {α : Type} (act : α → Effects → Outcome) : List α → Effects → Outcome
  | [], e => (.ok (), e)
  | a :: as, e =>
    match act a e with
    | (.error id, e) => (.error id, e)
    | (.ok (), e) => inOrder act as e

/-- All that a script does: its requests, and then its statements. -/
def ofScript (known : List String) (specs : List PluginSpec) (statements : List Statement) :
    Outcome :=
  match inOrder (spec known) specs none with
  | (.error id, e) => (.error id, e)
  | (.ok (), e) => inOrder (statement known) statements e

end Effects

/-- The requests of a statement. -/
def Language.Statement.specs (s : Statement) : List PluginSpec :=
  match s.form with
  | .plugins specs => specs
  | _ => []

/-- The step that a request becomes. -/
def Language.PluginSpec.step (s : PluginSpec) : Step :=
  ⟨s.line, .requestPlugin ⟨s.id, s.version, s.apply⟩⟩

/-! ## 2. What statements are lowered to -/

section Lowering

variable {known known' : Requested} {specs : List PluginSpec} {steps : List Step} {s : Statement}
  {ss : List Statement}

theorem lookup_request (known : Requested) (spec : PluginSpec) (id : String) :
    List.lookup id ((spec.id, spec.line) :: known) =
      if id = spec.id then some spec.line else known.lookup id := by
  rw [List.lookup_cons]
  by_cases hid : id = spec.id
  · simp [hid]
  · rw [if_neg hid, beq_false_of_ne hid]

/-- A block becomes its requests, none of which was made before. -/
theorem lowerSpecs_eq_ok (h : lowerSpecs known specs = .ok (steps, known')) :
    steps = specs.map PluginSpec.step ∧ (specs.map PluginSpec.id).Nodup ∧
      (∀ spec ∈ specs, known.lookup spec.id = none) ∧
      ∀ id, known'.lookup id = none → known.lookup id = none ∧ id ∉ specs.map PluginSpec.id := by
  induction specs generalizing known known' steps with
  | nil =>
    cases h
    exact ⟨rfl, .nil, fun _ hs => (by cases hs), fun _ hid => ⟨hid, List.not_mem_nil⟩⟩
  | cons spec specs ih =>
    rw [lowerSpecs] at h
    cases hlookup : known.lookup spec.id with
    | some line => rw [hlookup] at h; cases h
    | none =>
      rw [hlookup] at h
      obtain ⟨⟨rest, known''⟩, hrest, hr⟩ := bind_eq_ok h
      obtain ⟨rfl, hnodup, hnew, hknown⟩ := ih hrest
      cases hr
      -- What is not known with the first request is not known without it, and is another one.
      have hother {id : String} (hid : List.lookup id ((spec.id, spec.line) :: known) = none) :
          id ≠ spec.id ∧ known.lookup id = none := by
        rw [lookup_request] at hid
        split at hid
        · cases hid
        next hne => exact ⟨hne, hid⟩
      refine ⟨rfl, List.nodup_cons.mpr ⟨fun hmem => ?_, hnodup⟩, fun other hmem => ?_,
        fun id hid => ?_⟩
      · obtain ⟨other, hmem, he⟩ := List.mem_map.mp hmem
        exact (hother (hnew other hmem)).1 he
      · rcases List.mem_cons.mp hmem with rfl | hmem
        · exact hlookup
        · exact (hother (hnew other hmem)).2
      · obtain ⟨hid, hnot⟩ := hknown id hid
        obtain ⟨hne, hid⟩ := hother hid
        exact ⟨hid, fun hmem => (List.mem_cons.mp hmem).elim hne hnot⟩

theorem lowerSpecs_append (known : Requested) (specs specs' : List PluginSpec) :
    lowerSpecs known (specs ++ specs') = do
      let (steps, known) ← lowerSpecs known specs
      let (steps', known) ← lowerSpecs known specs'
      return (steps ++ steps', known) := by
  induction specs generalizing known with
  | nil =>
    rw [List.nil_append, lowerSpecs]
    show _ = lowerSpecs known specs' >>= _
    cases lowerSpecs known specs' <;> rfl
  | cons spec specs ih =>
    rw [List.cons_append, lowerSpecs, lowerSpecs]
    cases known.lookup spec.id with
    | some line => rfl
    | none =>
      simp only
      rw [ih]
      cases lowerSpecs ((spec.id, spec.line) :: known) specs with
      | error e => rfl
      | ok r =>
        show (lowerSpecs r.2 specs' >>= _) >>= _ = lowerSpecs r.2 specs' >>= _
        cases lowerSpecs r.2 specs' <;> rfl

/-- A preamble is lowered as one block of all its requests. -/
theorem lowerSpecs_of_preamble (h : lower .preamble known ss = .ok steps) :
    ∃ known', lowerSpecs known (ss.flatMap Statement.specs) = .ok (steps, known') := by
  induction ss generalizing known steps with
  | nil =>
    cases h
    exact ⟨known, rfl⟩
  | cons s ss ih =>
    rw [lower] at h
    obtain ⟨⟨first, known'⟩, hfirst, h⟩ := bind_eq_ok h
    obtain ⟨rest, hrest, hr⟩ := bind_eq_ok h
    cases hr
    obtain ⟨known'', hlower⟩ := ih hrest
    obtain ⟨line, form⟩ := s
    cases form with
    | plugins specs =>
      have hspecs : lowerSpecs known specs = .ok (first, known') := hfirst
      refine ⟨known'', ?_⟩
      show lowerSpecs known (specs ++ ss.flatMap Statement.specs) = _
      rw [lowerSpecs_append, hspecs]
      show lowerSpecs known' (ss.flatMap Statement.specs) >>= _ = _
      rw [hlower]
      rfl
    | println text => cases hfirst
    | applyPlugin id => cases hfirst
    | setProperty key value => cases hfirst

/-- A preamble becomes the requests of all its blocks, and no id is requested twice. -/
theorem lower_preamble_eq_ok (h : lower .preamble known ss = .ok steps) :
    steps = (ss.flatMap Statement.specs).map PluginSpec.step ∧
      ((ss.flatMap Statement.specs).map PluginSpec.id).Nodup ∧
      ∀ spec ∈ ss.flatMap Statement.specs, known.lookup spec.id = none := by
  obtain ⟨known', hlower⟩ := lowerSpecs_of_preamble h
  obtain ⟨hsteps, hnodup, hnew, -⟩ := lowerSpecs_eq_ok hlower
  exact ⟨hsteps, hnodup, hnew⟩

end Lowering

/-! ## 3. What steps do -/

namespace Execution

variable {known : List String} {x x' : Execution} {e : Effects} {className : String}
  {requests : Requests} {ε α : Type}

/-- A project that shows some effects. -/
structure Shows (known : List String) (x : Execution) (e : Effects) : Prop where
  kind : x.target.kind = .project
  journal : x.target.journal = e.journal
  properties : x.target.properties = e.properties
  plugins : x.target.plugins = some ⟨e.applied, if known = [] then none else some known⟩

/-- An execution ends as following a script does, and shows the same. -/
structure Agrees (known : List String) (r : Result ε α) (o : Effects.Outcome) : Prop where
  ends : r.1.isOk = o.1.isOk
  shows : Shows known r.2 o.2

/-- Both fail, or neither does. -/
theorem Agrees.cases {r : Result ε α} {o : Effects.Outcome} (h : Agrees known r o) :
    (∃ err x id e, r = (.error err, x) ∧ o = (.error id, e) ∧ Shows known x e) ∨
      ∃ a x e, r = (.ok a, x) ∧ o = (.ok (), e) ∧ Shows known x e := by
  obtain ⟨err | a, x⟩ := r <;> obtain ⟨id | _, e⟩ := o
  · exact .inl ⟨err, x, id, e, rfl, rfl, h.shows⟩
  · cases h.ends
  · cases h.ends
  · exact .inr ⟨a, x, e, rfl, rfl, h.shows⟩

/-- What is reported is no effect. -/
theorem Shows.of_target (h : Shows known x e) (ht : x'.target = x.target) : Shows known x' e :=
  ⟨ht ▸ h.kind, ht ▸ h.journal, ht ▸ h.properties, ht ▸ h.plugins⟩

theorem shows_start (name : String) (scope : Nat) (known : List String) :
    Shows known (.start (.fresh .project name scope known)) .none := ⟨rfl, rfl, rfl, rfl⟩

/-- A plugin is applied as it is followed. -/
theorem agrees_applyPlugin (h : Shows known x e) {m : PluginManager}
    (hm : x.target.plugins = some m) (id : String) :
    Agrees known (x.applyPlugin m id) (Effects.plugin known id e) := by
  obtain rfl : (⟨e.applied, if known = [] then none else some known⟩ : PluginManager) = m :=
    Option.some.inj (h.plugins.symm.trans hm)
  have hknows : PluginManager.knows ⟨e.applied, if known = [] then none else some known⟩ id =
      decide (known = [] ∨ id ∈ known) := by
    rw [PluginManager.knows]
    by_cases hk : known = []
    · simp [hk]
    · simp [hk]
  rw [applyPlugin, Effects.plugin]
  by_cases hid : id ∈ e.applied
  · have hhas : PluginManager.has ⟨e.applied, if known = [] then none else some known⟩ id = true :=
      decide_eq_true hid
    simp only [hhas, if_true, BuildTarget.applyPlugin, PluginManager.apply, if_pos hid]
    exact ⟨rfl, h.kind, h.journal, h.properties, rfl⟩
  · have hhas : PluginManager.has ⟨e.applied, if known = [] then none else some known⟩ id = false :=
      decide_eq_false hid
    simp only [hhas, Bool.false_eq_true, if_false, BuildTarget.applyPlugin, PluginManager.apply,
      hknows, decide_eq_true_eq, if_neg hid]
    by_cases hk : known = [] ∨ id ∈ known
    · simp only [if_pos hk, if_true]
      exact ⟨rfl, h.kind, congrArg (· ++ _) h.journal, h.properties, rfl⟩
    · simp only [if_neg hk]
      exact ⟨rfl, h⟩

/-- Steps after other steps. -/
theorem steps_append (x : Execution) (className : String) (requests : Requests)
    (ss ts : List Step) : x.steps className requests (ss ++ ts) =
      match x.steps className requests ss with
      | (.error err, x) => (.error err, x)
      | (.ok requests, x) => x.steps className requests ts := by
  induction ss generalizing x requests with
  | nil => rfl
  | cons s ss ih =>
    rw [List.cons_append, steps, steps]
    rcases x.step className requests s with ⟨err | requests, x⟩
    · rfl
    · exact ih x requests

/-- Steps that request plugins collect the requests and leave the target alone. -/
theorem steps_specs (x : Execution) (className : String) (requests : Requests)
    (specs : List PluginSpec) :
    ∃ x', x.steps className requests (specs.map PluginSpec.step) =
        (.ok (requests ++ specs.map fun s => ⟨s.id, s.version, s.apply⟩), x') ∧
      x'.target = x.target := by
  induction specs generalizing x requests with
  | nil => exact ⟨x, by rw [List.map_nil, List.map_nil, List.append_nil]; rfl, rfl⟩
  | cons spec specs ih =>
    obtain ⟨x', hrest, ht⟩ := ih (x.report (.stepRunning className spec.line))
      (requests ++ [⟨spec.id, spec.version, spec.apply⟩])
    refine ⟨x', ?_, ht⟩
    rw [List.append_assoc] at hrest
    exact hrest

/-- The steps of one statement of a body do what the statement says. -/
theorem agrees_statement (h : Shows known x e) {seen seen' : Requested} {s : Statement}
    {ss : List Step} (hs : lowerStatement .body seen s = .ok (ss, seen'))
    (hno : ∀ step ∈ ss, step.action.isRequest = false) :
    Agrees known (x.steps className requests ss) (Effects.statement known s e) := by
  obtain ⟨line, form⟩ := s
  cases form with
  | plugins specs =>
    obtain ⟨rfl, -⟩ := lowerSpecs_eq_ok hs
    -- A block in a body is refused unless it is empty.
    cases specs with
    | nil => exact ⟨rfl, h⟩
    | cons spec specs => cases hno _ List.mem_cons_self
  | println text =>
    cases hs
    exact ⟨rfl, h.kind, congrArg (· ++ _) h.journal, h.properties, h.plugins⟩
  | setProperty key value =>
    cases hs
    have hproperties : x.target.properties.insert key value = e.properties.insert key value := by
      rw [h.properties]
    exact ⟨rfl, h.kind, congrArg (· ++ _) h.journal, hproperties, h.plugins⟩
  | applyPlugin id =>
    cases hs
    have hreport : Shows known (x.report (.stepRunning className line)) e := h.of_target rfl
    have happly := agrees_applyPlugin hreport hreport.plugins id
    have hstatement : Effects.statement known ⟨line, .applyPlugin id⟩ e =
      Effects.plugin known id e := rfl
    rw [hstatement, steps, step]
    rcases happly.cases with
      ⟨err, x', id', e', hx, he, hshows⟩ | ⟨newly, x', e', hx, he, hshows⟩ <;>
      · simp only [hreport.plugins, hx, he]
        exact ⟨rfl, hshows⟩

/-- **The steps of a body do what its statements say.** -/
theorem agrees_statements (h : Shows known x e) {seen : Requested} {ss : List Statement}
    {steps : List Step} (hs : lower .body seen ss = .ok steps)
    (hno : ∀ step ∈ steps, step.action.isRequest = false) :
    Agrees known (x.steps className requests steps)
      (Effects.inOrder (Effects.statement known) ss e) := by
  induction ss generalizing x e seen requests steps with
  | nil =>
    cases hs
    exact ⟨rfl, h⟩
  | cons s ss ih =>
    rw [lower] at hs
    obtain ⟨⟨first, seen'⟩, hfirst, hs⟩ := bind_eq_ok hs
    obtain ⟨rest, hrest, hr⟩ := bind_eq_ok hs
    cases hr
    have hone : Agrees known (x.steps className requests first) (Effects.statement known s e) :=
      agrees_statement h hfirst fun step hmem => hno step (List.mem_append_left _ hmem)
    rw [steps_append, Effects.inOrder]
    rcases hone.cases with
      ⟨err, x', id, e', hx, he, hshows⟩ | ⟨requests', x', e', hx, he, hshows⟩ <;> rw [hx, he]
    · exact ⟨rfl, hshows⟩
    · exact ih hshows hrest fun step hmem => hno step (List.mem_append_right _ hmem)

/-! ## 4. What requests do -/

/-- No id is requested a second time just if all are different. -/
theorem repeated?_eq_none_iff {seen : List String} {rs : List PluginRequest} :
    repeated? seen rs = none ↔ (rs.map PluginRequest.id).Nodup ∧ ∀ r ∈ rs, r.id ∉ seen := by
  induction rs generalizing seen with
  | nil => exact ⟨fun _ => ⟨.nil, fun _ h => absurd h List.not_mem_nil⟩, fun _ => rfl⟩
  | cons r rs ih =>
    rw [repeated?, List.map_cons, List.nodup_cons, List.forall_mem_cons]
    by_cases hseen : r.id ∈ seen
    · simp only [hseen, if_true, reduceCtorEq, not_true, false_and, and_false]
    · rw [if_neg hseen, ih]
      -- The id of the first request is among those that were seen before the others.
      have hcons : (∀ r' ∈ rs, r'.id ∉ r.id :: seen) ↔
          r.id ∉ rs.map PluginRequest.id ∧ ∀ r' ∈ rs, r'.id ∉ seen := by
        simp only [List.mem_cons, not_or, List.mem_map, not_exists, not_and]
        exact ⟨fun h => ⟨fun r' hr' he => (h r' hr').1 he, fun r' hr' => (h r' hr').2⟩,
          fun h r' hr' => ⟨fun he => h.1 r' hr' he, h.2 r' hr'⟩⟩
      rw [hcons]
      exact ⟨fun h => ⟨⟨h.2.1, h.1⟩, hseen, h.2.2⟩, fun h => ⟨h.1.2, h.1.1, h.2.2⟩⟩

/-- Requests are applied as they are followed. -/
theorem agrees_applyEach (h : Shows known x e) (specs : List PluginSpec) :
    Agrees known (x.applyEach (specs.map fun s => ⟨s.id, s.version, s.apply⟩))
      (Effects.inOrder (Effects.spec known) specs e) := by
  induction specs generalizing x e with
  | nil => exact ⟨rfl, h⟩
  | cons s specs ih =>
    rw [List.map_cons, applyEach, Effects.inOrder, Effects.spec]
    cases happly : s.apply with
    | false => exact ih (h.of_target rfl)
    | true =>
      simp only [if_true, h.plugins]
      rcases (agrees_applyPlugin h h.plugins s.id).cases with
        ⟨err, x', id, e', hx, he, hshows⟩ | ⟨newly, x', e', hx, he, hshows⟩ <;> rw [hx, he]
      · exact ⟨rfl, hshows⟩
      · exact ih (hshows.of_target rfl)

/-! ## 5. Whole scripts -/

/-- The class of a phase, unless it has no steps. -/
def classOf (phase : Phase) (className : String) (steps : List Step) : Option CompiledClass :=
  if steps.isEmpty then none else some ⟨className, phase, .project, steps⟩

theorem admits_classOf (h : Shows known x e) (phase : Phase) (className : String)
    (steps : List Step) : x.admits phase ⟨className, phase, .project, steps⟩ = .ok () := by
  rw [admits, h.kind]
  simp

/-- A preamble does what its requests say. -/
theorem agrees_preamble (h : Shows known x e) {ss : List Statement} {steps : List Step}
    (hs : lower .preamble [] ss = .ok steps) :
    Agrees known (optional preamble x (classOf .preamble className steps))
      (Effects.inOrder (Effects.spec known) (ss.flatMap Statement.specs) e) := by
  obtain ⟨rfl, hnodup, -⟩ := lower_preamble_eq_ok hs
  generalize ss.flatMap Statement.specs = specs at hnodup
  cases specs with
  | nil => exact ⟨rfl, h⟩
  | cons spec specs =>
    obtain ⟨x', hsteps, ht⟩ := steps_specs (x.report (.requestsRunning className x.target.name))
      className [] (spec :: specs)
    have hnone : repeated? [] ((spec :: specs).map fun s => ⟨s.id, s.version, s.apply⟩) = none :=
      repeated?_eq_none_iff.mpr ⟨by rwa [List.map_map], fun _ _ => List.not_mem_nil⟩
    rw [List.nil_append] at hsteps
    have hshows : Shows known { x' with handovers := x'.handovers ++ [Handover.mk
        ((spec :: specs).map fun s => ⟨s.id, s.version, s.apply⟩) x'.target.name] } e :=
      h.of_target ht
    have hclass : classOf .preamble className ((spec :: specs).map PluginSpec.step) =
        some ⟨className, .preamble, .project, (spec :: specs).map PluginSpec.step⟩ := rfl
    rw [hclass, optional, preamble]
    simp only [h.plugins, admits_classOf h, hsteps, applyRequests, hnone]
    rcases (agrees_applyEach hshows (spec :: specs)).cases with
      ⟨err, x'', id, e', hx, he, hshows'⟩ | ⟨_, x'', e', hx, he, hshows'⟩ <;>
      · rw [hx, he]
        exact ⟨rfl, hshows'⟩

/-- A body does what its statements say. -/
theorem agrees_body (h : Shows known x e) {ss : List Statement} {steps : List Step}
    (hs : lower .body [] ss = .ok steps) (hno : ∀ step ∈ steps, step.action.isRequest = false) :
    Agrees known (optional body x (classOf .body className steps))
      (Effects.inOrder (Effects.statement known) ss e) := by
  have hshows : Shows known (x.report (.bodyRunning className x.target.name)) e := h.of_target rfl
  cases steps with
  | nil =>
    -- No class is run, but there is nothing to be done either.
    have hnothing : Agrees known (x.steps className [] []) _ := agrees_statements h hs hno
    exact ⟨hnothing.ends, hnothing.shows⟩
  | cons step steps =>
    have hclass : classOf .body className (step :: steps) =
        some ⟨className, .body, .project, step :: steps⟩ := rfl
    rw [hclass, optional, body]
    simp only [admits_classOf h]
    rcases (agrees_statements hshows hs hno).cases with
      ⟨err, x', id, e', hx, he, hshows'⟩ | ⟨requests, x', e', hx, he, hshows'⟩ <;>
      · rw [hx, he]
        exact ⟨rfl, hshows'⟩

/-- **Both classes of a script do what the script says.** -/
theorem agrees_phases (h : Shows known x .none) {pre main : List Statement}
    {preSteps mainSteps : List Step} (hpre : lower .preamble [] pre = .ok preSteps)
    (hmain : lower .body [] main = .ok mainSteps)
    (hno : ∀ step ∈ mainSteps, step.action.isRequest = false) (preName mainName : String) :
    Agrees known (x.phases (classOf .preamble preName preSteps) (classOf .body mainName mainSteps))
      (Effects.ofScript known (pre.flatMap Statement.specs) main) := by
  rw [phases, Effects.ofScript]
  rcases (agrees_preamble h hpre).cases with
    ⟨err, x', id, e', hx, he, hshows⟩ | ⟨_, x', e', hx, he, hshows⟩ <;> rw [hx, he]
  · exact ⟨rfl, hshows⟩
  · have hbody : Agrees known (optional body x' (classOf .body mainName mainSteps)) _ :=
      agrees_body hshows hmain hno
    rcases hbody.cases with
      ⟨err, x'', id, e'', hx', he', hshows'⟩ | ⟨_, x'', e'', hx', he', hshows'⟩
    · simp only [hx', he']
      exact ⟨rfl, hshows'⟩
    · simp only [hx', he']
      exact ⟨rfl, hshows'.of_target rfl⟩

end Execution

end ScriptPlugins
