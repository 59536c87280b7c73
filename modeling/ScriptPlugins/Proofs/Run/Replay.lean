import Mathlib.Data.List.Induction
import Mathlib.Data.List.Nodup
import ScriptPlugins.Proofs.Run.Failures
import ScriptPlugins.Proofs.Run.Once

/-!
# Replay — a target is what its journal says

A target is changed through its own calls, through its plugin manager, by the applicator and by the
classes of a script.  Each of them writes to the journal what it does, and does no more than that,
so the plugins and the properties of a target can be read off its journal at any time, also after
calls that failed on the way.
-/

namespace ScriptPlugins

/-! ## 1. What a journal says -/

/-- What an event writes to a property. -/
def TargetEvent.written? (key : String) : TargetEvent → Option String
  | propertySet key' value => if key' = key then some value else none
  | _ => none

/-- What was written to a property last. -/
def lastWritten? (journal : List TargetEvent) (key : String) : Option String :=
  journal.reverse.findSome? (TargetEvent.written? key)

theorem lastWritten?_concat (journal : List TargetEvent) (e : TargetEvent) (key : String) :
    lastWritten? (journal ++ [e]) key = (e.written? key).or (lastWritten? journal key) := by
  unfold lastWritten?
  rw [List.reverse_append, List.reverse_singleton, List.singleton_append, List.findSome?_cons]
  cases e.written? key <;> rfl

theorem TargetEvent.getElem?_setIn (properties : Std.ExtTreeMap String String) (e : TargetEvent)
    (key : String) : (e.setIn properties)[key]? = (e.written? key).or properties[key]? := by
  cases e with
  | pluginApplied id => rfl
  | console line => rfl
  | propertySet key' value =>
    rw [setIn, written?, Std.ExtTreeMap.getElem?_insert]
    by_cases hkey : key' = key
    · simp [hkey]
    · have hne : compare key' key ≠ .eq := fun h => hkey (Std.LawfulEqOrd.eq_of_compare h)
      simp [hkey, hne]

/-- Properties after some events: what the events wrote last, and else what they were before. -/
theorem getElem?_foldl_setIn (properties : Std.ExtTreeMap String String) (es : List TargetEvent)
    (key : String) :
    (es.foldl TargetEvent.setIn properties)[key]? = (lastWritten? es key).or properties[key]? := by
  induction es using List.reverseRecOn with
  | nil => rfl
  | append_singleton es e ih =>
    rw [List.foldl_append, List.foldl_cons, List.foldl_nil, TargetEvent.getElem?_setIn, ih,
      lastWritten?_concat, Option.or_assoc]

namespace BuildTarget

variable {t : BuildTarget} {m : PluginManager} {es es' : List TargetEvent} {s : Step}
  {ss : List Step} {ids : List String}

theorem recordedPlugins_eq (t : BuildTarget) :
    t.recordedPlugins = t.journal.filterMap TargetEvent.plugin? := by
  unfold recordedPlugins
  congr 1

/-- **A target that is what its journal says**: its plugins are those recorded, in order and each of
them once, and a property has the value that was written last.  If the known ids are given, it has
no other plugin. -/
structure Replays (known : List String) (t : BuildTarget) : Prop where
  once : t.applied.Nodup
  recorded : t.applied = t.recordedPlugins
  known : known ≠ [] → ∀ id ∈ t.applied, id ∈ known
  properties : ∀ key, t.property? key = lastWritten? t.journal key

/-! ## 2. Events that a target may record -/

/-- Events that a target may record: only plugins that it finds, and none that it has. -/
structure Records (t : BuildTarget) (es : List TargetEvent) : Prop where
  found : t.Found es
  once : t.applied.Nodup → (t.after es).applied.Nodup

theorem Records.nil (t : BuildTarget) : t.Records [] :=
  ⟨nofun, fun h => by rwa [after_nil]⟩

/-- An event that records no plugin. -/
theorem Records.of_plain {e : TargetEvent} (h : ∀ id, e ≠ .pluginApplied id) : t.Records [e] where
  found := fun id hid => absurd (List.mem_singleton.mp hid).symm (h id)
  once := fun hnodup => by
    have hplain : [e].filterMap TargetEvent.plugin? = [] := by
      cases e with
      | pluginApplied id => exact absurd rfl (h id)
      | console line => rfl
      | propertySet key value => rfl
    cases hm : t.plugins with
    | none => simp [applied, after, hm]
    | some m => rwa [applied_after hm, hplain, List.append_nil]

/-- What is recorded after some events was found before them. -/
theorem Records.append (h : t.Records es) (h' : (t.after es).Records es') :
    t.Records (es ++ es') where
  found := h.found.append fun id hid => by
    have hfinds := h'.found id hid
    rwa [finds_after h.found] at hfinds
  once := fun hnodup => by
    rw [after_append]
    exact h'.once (h.once hnodup)

/-- Plugins that are applied in order, all different. -/
theorem records_newly (hids : ids.Nodup) (hfinds : ∀ id ∈ ids, t.finds id = true) :
    t.Records (t.newly ids) where
  found := found_newly hfinds t
  once := fun hnodup => by
    cases hm : t.plugins with
    | none => simp [applied, after, hm]
    | some m =>
      have hplugins : (t.newly ids).filterMap TargetEvent.plugin? = ids.filter (· ∉ t.applied) := by
        unfold newly
        rw [List.filterMap_map]
        exact List.filterMap_some
      rw [applied_after hm, hplugins, List.nodup_append]
      refine ⟨hnodup, hids.filter _, fun id hold id' hnew heq => ?_⟩
      exact of_decide_eq_true (List.mem_filter.mp hnew).2 (heq ▸ hold)

theorem records_eventOf (h : t.allows s = true) : t.Records (t.eventOf s) := by
  obtain ⟨line, action⟩ := s
  cases action with
  | applyPlugin id =>
    -- One plugin is a list of different plugins.
    have hone : t.Records (t.newly [id]) :=
      records_newly (List.nodup_singleton id) fun _ hid => List.mem_singleton.mp hid ▸ h
    rwa [newly_singleton] at hone
  | requestPlugin r => exact .nil t
  | println text => exact .of_plain fun _ => nofun
  | setProperty key value => exact .of_plain fun _ => nofun

theorem records_eventsOf (h : ∀ s ∈ ss, t.allows s = true) : t.Records (t.eventsOf ss) := by
  induction ss generalizing t with
  | nil => exact .nil t
  | cons s ss ih =>
    rw [List.forall_mem_cons] at h
    have hs : t.Records (t.eventOf s) := records_eventOf h.1
    refine hs.append (ih ?_)
    rw [allows_after hs.found]
    exact h.2

/-- The plugins that requests apply are all different. -/
theorem records_newly_applies (t : BuildTarget) (rs : List PluginRequest) :
    t.Records (t.newly (t.applies rs)) := by
  refine records_newly ?_ fun id => finds_of_mem_applies
  unfold applies
  split
  next hnodup =>
    have happly : (toApply rs).Nodup := hnodup.sublist (List.filter_sublist.map PluginRequest.id)
    exact happly.sublist (List.takeWhile_sublist _)
  next => exact List.nodup_nil

/-- The steps of a phase record what is found, as they go no further. -/
theorem records_stepsRun (t : BuildTarget) (phase : Phase) (c : Option CompiledClass) :
    t.Records (t.eventsOf (t.stepsRun phase c)) := by
  refine records_eventsOf fun s hs => ?_
  unfold stepsRun at hs
  split at hs
  · exact List.all_eq_true.mp List.all_takeWhile s hs
  · cases hs

/-- So does a whole run: the preamble, then its requests, then the body, each at the target that the
part before it left. -/
theorem records_course (t : BuildTarget) (pre main : Option CompiledClass) :
    let c := t.course pre main
    let P := t.eventsOf c.ran
    let R := (t.after P).newly c.applied
    t.Records (P ++ R ++ (t.after (P ++ R)).eventsOf c.acted) := by
  intro c P R
  have hP : t.Records P := t.records_stepsRun .preamble pre
  have hR : (t.after P).Records R := by
    show (t.after P).Records ((t.after P).newly
      (if t.ends .preamble pre then t.applies (phaseRequests pre) else []))
    rw [← applies_after hP.found]
    split
    · exact records_newly_applies _ _
    · exact .nil _
  have hPR : t.Records (P ++ R) := hP.append hR
  refine hPR.append ?_
  show (t.after (P ++ R)).Records ((t.after (P ++ R)).eventsOf
    (if t.ends .preamble pre && t.grants (phaseRequests pre) then t.stepsRun .body main else []))
  rw [← stepsRun_after hPR.found]
  split
  · exact records_stepsRun _ _ _
  · exact .nil _

/-- A target that was made fresh is what its journal says, whatever it has recorded. -/
theorem replays_after_fresh {kind : ScriptKind} {name : String} {scope : Nat} {known : List String}
    (h : (fresh kind name scope known).Records es) :
    ((fresh kind name scope known).after es).Replays known := by
  have happlied : (fresh kind name scope known).applied = [] := by cases kind <;> rfl
  have hrecorded : ((fresh kind name scope known).after es).applied =
      es.filterMap TargetEvent.plugin? := by
    cases hm : (fresh kind name scope known).plugins with
    | some m => rw [applied_after hm, happlied, List.nil_append]
    | none =>
      -- A target without plugins finds none, so it has recorded none.
      have hnone : es.filterMap TargetEvent.plugin? = [] := by
        rw [List.filterMap_eq_nil_iff]
        intro e he
        cases e with
        | console line => rfl
        | propertySet key value => rfl
        | pluginApplied id =>
          have hfinds := h.found id he
          rw [finds_of_plugins_none hm] at hfinds
          cases hfinds
      rw [hnone]
      simp [applied, after, hm]
  refine ⟨h.once (happlied ▸ List.nodup_nil), ?_, fun hknown id hid => ?_, fun key => ?_⟩
  · rw [hrecorded, recordedPlugins_eq]
    rfl
  · rw [hrecorded] at hid
    obtain ⟨e, he, hplugin⟩ := List.mem_filterMap.mp hid
    cases e with
    | console line => cases hplugin
    | propertySet key value => cases hplugin
    | pluginApplied id' =>
      cases hplugin
      have hfinds := h.found id he
      cases kind with
      | project =>
        simpa [finds, fresh, PluginManager.fresh, PluginManager.has, PluginManager.knows, hknown]
          using hfinds
      | settings => cases hfinds
      | invocation => cases hfinds
  · show (es.foldl TargetEvent.setIn ∅)[key]? = lastWritten? ([] ++ es) key
    rw [getElem?_foldl_setIn, Std.ExtTreeMap.getElem?_empty, Option.or_none, List.nil_append]

end BuildTarget

/-! ## 3. Calls -/

/-- What is done to a target: its own calls, a plugin through its manager, requests through the
applicator, the steps of one class, or a run of both classes of a script. -/
inductive TargetCall where
  | println (line : String)
  | setProperty (key value : String)
  | applyPlugin (id : String)
  | applyRequests (rs : List PluginRequest)
  | runSteps (className : String) (requests : List PluginRequest) (ss : List Step)
  | run (r : Runner) (w : World) (pre main : Option CompiledClass)

namespace TargetCall

/-- What a call leaves, also if it fails.  Without a manager nobody can apply a plugin. -/
def perform (x : Execution) : TargetCall → Execution
  | println line => { x with target := x.target.println line }
  | setProperty key value => { x with target := x.target.setProperty key value }
  | applyPlugin id =>
    match x.target.plugins with
    | none => x
    | some m => (x.applyPlugin m id).2
  | applyRequests rs => (x.applyRequests rs).2
  | runSteps className requests ss => (x.steps className requests ss).2
  | run r w pre main => (Job.run (r.run x pre main) w).1.1.2

/-- A run that begins records what its classes do, and one that does not begin records nothing. -/
theorem exists_records_run (r : Runner) (x : Execution) (w : World)
    (pre main : Option CompiledClass) : ∃ es, x.target.Records es ∧
      (Job.run (r.run x pre main) w).1.1.2.target = x.target.after es := by
  by_cases hidle : r.state = .idle
  · cases hs : w.scopes.scope? r.scope with
    | none =>
      rw [Runner.run_of_gone hidle hs]
      exact ⟨[], .nil _, (BuildTarget.after_nil _).symm⟩
    | some s =>
      obtain ⟨scopes, log, hrun, -⟩ := Runner.run_live hidle hs x pre main
      rw [hrun]
      exact ⟨_, x.target.records_course pre main, (Execution.leaves_phases x pre main).target⟩
  · rw [Runner.run_again hidle]
    exact ⟨[], .nil _, (BuildTarget.after_nil _).symm⟩

/-- **Each call records what it does**, also one that fails. -/
theorem exists_records (x : Execution) (call : TargetCall) :
    ∃ es, x.target.Records es ∧ (call.perform x).target = x.target.after es := by
  cases call with
  | println line =>
    exact ⟨[.console line], .of_plain fun _ => nofun, BuildTarget.println_eq ..⟩
  | setProperty key value =>
    exact ⟨[.propertySet key value], .of_plain fun _ => nofun, BuildTarget.setProperty_eq ..⟩
  | applyPlugin id =>
    unfold perform
    cases hm : x.target.plugins with
    | none => exact ⟨[], .nil _, (BuildTarget.after_nil _).symm⟩
    | some m =>
      have hleaves := Execution.leaves_applyPlugin hm id
      refine ⟨_, ?_, hleaves.target⟩
      split
      next hfinds =>
        exact BuildTarget.records_newly (List.nodup_singleton id)
          fun _ hid => List.mem_singleton.mp hid ▸ hfinds
      next => exact .nil _
  | applyRequests rs =>
    exact ⟨_, BuildTarget.records_newly_applies _ _, (Execution.leaves_applyRequests x rs).target⟩
  | runSteps className requests ss =>
    exact ⟨_, BuildTarget.records_eventsOf fun s hs => List.all_eq_true.mp List.all_takeWhile s hs,
      (Execution.leaves_steps x className requests ss).target⟩
  | run r w pre main => exact exists_records_run r x w pre main

/-- What many calls leave, one after the other. -/
def performAll (x : Execution) (calls : List TargetCall) : Execution := calls.foldl perform x

theorem exists_records_all (x : Execution) (calls : List TargetCall) :
    ∃ es, x.target.Records es ∧ (performAll x calls).target = x.target.after es := by
  induction calls generalizing x with
  | nil => exact ⟨[], .nil _, (BuildTarget.after_nil _).symm⟩
  | cons call calls ih =>
    obtain ⟨es, hes, htarget⟩ := exists_records x call
    obtain ⟨es', hes', htarget'⟩ := ih (call.perform x)
    rw [htarget] at hes' htarget'
    exact ⟨es ++ es', hes.append hes', htarget'.trans (BuildTarget.after_append ..).symm⟩

/-- After any calls a target is what its journal says. -/
theorem replays_performAll (kind : ScriptKind) (name : String) (scope : Nat) (known : List String)
    (calls : List TargetCall) :
    (performAll (.start (.fresh kind name scope known)) calls).target.Replays known := by
  obtain ⟨es, hes, htarget⟩ := exists_records_all (.start (.fresh kind name scope known)) calls
  rw [htarget]
  exact BuildTarget.replays_after_fresh hes

end TargetCall

/-! ## 4. The applicator -/

namespace BuildTarget

variable {t : BuildTarget} {m : PluginManager} {id : String}

/-- A target whose manager has applied some more plugins, each of them recorded. -/
def extended (t : BuildTarget) (m : PluginManager) (ids : List String) : BuildTarget :=
  { t with
    journal := t.journal ++ ids.map .pluginApplied
    plugins := some { m with applied := m.applied ++ ids } }

theorem after_newly (hm : t.plugins = some m) (ids : List String) :
    t.after (t.newly ids) = t.extended m (ids.filter (· ∉ m.applied)) := by
  have happlied : t.applied = m.applied := by rw [applied, hm, Option.elim_some]
  have hproperties (l : List String) :
      (l.map TargetEvent.pluginApplied).foldl TargetEvent.setIn t.properties = t.properties := by
    rw [List.foldl_map]
    exact List.foldl_fixed l
  have hplugins (l : List String) :
      (l.map TargetEvent.pluginApplied).filterMap TargetEvent.plugin? = l := by
    rw [List.filterMap_map]
    exact List.filterMap_some
  unfold after newly extended
  rw [happlied, hproperties, hplugins, hm, Option.map_some]

theorem finds_eq (hm : t.plugins = some m) (id : String) :
    t.finds id = (m.has id || m.knows id) := by
  rw [finds, hm, Option.any_some]

end BuildTarget

namespace Execution

variable {x : Execution} {rs : List PluginRequest} {m : PluginManager}

/-- The id that is told is the first that is requested a second time. -/
theorem of_repeated? {seen : List String} {id : String} (h : repeated? seen rs = some id) :
    ∃ before r rest, rs = before ++ r :: rest ∧ r.id = id ∧ (before.map PluginRequest.id).Nodup ∧
      (∀ r' ∈ before, r'.id ∉ seen) ∧ (r.id ∈ seen ∨ r.id ∈ before.map PluginRequest.id) := by
  induction rs generalizing seen with
  | nil => cases h
  | cons r rs ih =>
    rw [repeated?] at h
    split at h
    next hseen => exact ⟨[], r, rs, rfl, Option.some.inj h, List.nodup_nil,
      List.forall_mem_nil _, .inl hseen⟩
    next hnew =>
      obtain ⟨before, r', rest, rfl, hid, hnodup, hbefore, hagain⟩ := ih h
      have hapart (r'' : PluginRequest) (hr'' : r'' ∈ before) : r''.id ≠ r.id ∧ r''.id ∉ seen := by
        simpa using hbefore r'' hr''
      refine ⟨r :: before, r', rest, rfl, hid, ?_, ?_, ?_⟩
      · rw [List.map_cons, List.nodup_cons]
        refine ⟨fun hmem => ?_, hnodup⟩
        obtain ⟨r'', hr'', heq⟩ := List.mem_map.mp hmem
        exact (hapart r'' hr'').1 heq
      · rw [List.forall_mem_cons]
        exact ⟨hnew, fun r'' hr'' => (hapart r'' hr'').2⟩
      · simpa [or_assoc, or_left_comm] using hagain

/-- Requests that repeat an id change nothing, and the id that is told is the first repeated. -/
theorem applyRequests_of_repeated (x : Execution) (h : ¬ (rs.map PluginRequest.id).Nodup) :
    ∃ before r rest, rs = before ++ r :: rest ∧ (before.map PluginRequest.id).Nodup ∧
      r.id ∈ before.map PluginRequest.id ∧
      x.applyRequests rs = (.error (.duplicateRequest r.id), x) := by
  have hsome : repeated? [] rs ≠ none := fun hnone => h (repeated?_eq_none_iff.mp hnone).1
  obtain ⟨id, hid⟩ := Option.ne_none_iff_exists'.mp hsome
  obtain ⟨before, r, rest, hsplit, rfl, hnodup, -, hagain⟩ := of_repeated? hid
  refine ⟨before, r, rest, hsplit, hnodup, hagain.resolve_left List.not_mem_nil, ?_⟩
  unfold applyRequests
  rw [hid]

/-- Other requests are all met, or they are met up to the first whose plugin is not found. -/
theorem applyRequests_of_different (hm : x.target.plugins = some m)
    (h : (rs.map PluginRequest.id).Nodup) :
    ((x.applyRequests rs).1 = .ok () ∧ (∀ id ∈ toApply rs, (m.has id || m.knows id) = true) ∧
      (x.applyRequests rs).2.target =
        x.target.extended m ((toApply rs).filter (· ∉ m.applied))) ∨
    ∃ before id rest, toApply rs = before ++ id :: rest ∧
      (x.applyRequests rs).1 = .error (.notFound id) ∧
      (∀ id' ∈ before, (m.has id' || m.knows id') = true) ∧ (m.has id || m.knows id) = false ∧
      (x.applyRequests rs).2.target = x.target.extended m (before.filter (· ∉ m.applied)) := by
  have hleaves := leaves_applyRequests x rs
  have htarget := hleaves.target
  rw [BuildTarget.after_newly hm] at htarget
  have happlies : x.target.applies rs = (toApply rs).takeWhile x.target.finds := if_pos h
  simp only [← BuildTarget.finds_eq hm]
  cases hresult : (x.applyRequests rs).1 with
  | ok =>
    have hends := hleaves.ends
    rw [hresult] at hends
    have hgrants : x.target.grants rs = true := hends.symm
    rw [BuildTarget.applies_of_grants hgrants] at htarget
    refine .inl ⟨rfl, ?_, htarget⟩
    unfold BuildTarget.grants at hgrants
    rw [Bool.and_eq_true, List.all_eq_true] at hgrants
    exact hgrants.2
  | error cause =>
    obtain ⟨before, id, rest, hsplit, hbefore, hid, rfl⟩ :=
      error_of_applyRequests (by rw [hm]; rfl) h hresult
    -- What is applied before the failure is the longest front part that is found.
    have htaken : (toApply rs).takeWhile x.target.finds = before := by
      rw [hsplit, List.takeWhile_append_of_pos hbefore, List.takeWhile_cons_of_neg (by simp [hid]),
        List.append_nil]
    rw [happlies, htaken] at htarget
    exact .inr ⟨before, id, rest, hsplit, rfl, hbefore, hid, htarget⟩

end Execution

/-- **A target is the replay of its journal**, whatever was done to it: the plugins are those
recorded, each once and in order, none of them unknown, and a property has the value written last.
The applicator changes nothing if two requests share an id.  Else, with a manager, it applies the
plugins that are requested and not there yet, in order: all of them if it succeeds, and those before
the first that is not found if it fails. -/
theorem target_replays_journal :
    (∀ kind name scope known calls,
      (TargetCall.performAll (.start (.fresh kind name scope known)) calls).target.Replays known) ∧
    ∀ (x : Execution) (rs : List PluginRequest),
      (¬ (rs.map PluginRequest.id).Nodup → ∃ before r rest, rs = before ++ r :: rest ∧
        (before.map PluginRequest.id).Nodup ∧ r.id ∈ before.map PluginRequest.id ∧
        x.applyRequests rs = (.error (.duplicateRequest r.id), x)) ∧
      ((rs.map PluginRequest.id).Nodup → ∀ m, x.target.plugins = some m →
        ((x.applyRequests rs).1 = .ok () ∧ (∀ id ∈ toApply rs, (m.has id || m.knows id) = true) ∧
          (x.applyRequests rs).2.target =
            x.target.extended m ((toApply rs).filter (· ∉ m.applied))) ∨
        ∃ before id rest, toApply rs = before ++ id :: rest ∧
          (x.applyRequests rs).1 = .error (.notFound id) ∧
          (∀ id' ∈ before, (m.has id' || m.knows id') = true) ∧ (m.has id || m.knows id) = false ∧
          (x.applyRequests rs).2.target = x.target.extended m (before.filter (· ∉ m.applied))) :=
  ⟨TargetCall.replays_performAll, fun x _ =>
    ⟨x.applyRequests_of_repeated, fun h _ hm => Execution.applyRequests_of_different hm h⟩⟩

/-- The replay at work: one request list repeats an id, and the next stops at a plugin that is not
known. -/
example :
    let calls : List TargetCall := [.println "hi", .applyPlugin "java",
      .applyRequests [⟨"go", none, true⟩, ⟨"go", none, false⟩],
      .applyRequests [⟨"java", none, true⟩, ⟨"go", none, true⟩, ⟨"zig", none, true⟩,
        ⟨"c", none, true⟩]]
    (TargetCall.performAll (.start (.fresh .project "app" 0 ["java", "go", "c"]))
      calls).target.journal = [.console "hi", .pluginApplied "java", .pluginApplied "go"] := by
  decide

end ScriptPlugins
