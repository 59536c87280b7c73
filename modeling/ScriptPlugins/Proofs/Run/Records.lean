import ScriptPlugins.Proofs.Run.Effects

/-!
# Records — what a run leaves in the journal of a target

All that a run does to a target are events, and the properties and plugins of the target follow from
them.  Steps go on up to the first that the target cannot do, and requests up to the first plugin
that it cannot find.  Whether it can is settled before the run, as a plugin that is not found at
first is not found later.
-/

namespace ScriptPlugins

/-! ## 1. Targets after events -/

namespace TargetEvent

/-- The plugin that an event records. -/
def plugin? : TargetEvent → Option String
  | pluginApplied id => some id
  | _ => none

/-- The properties after an event. -/
def setIn (properties : Std.ExtTreeMap String String) : TargetEvent → Std.ExtTreeMap String String
  | propertySet key value => properties.insert key value
  | _ => properties

end TargetEvent

/-- The plugins of a request list that are to be applied. -/
def toApply (rs : List PluginRequest) : List String := (rs.filter (·.apply)).map PluginRequest.id

theorem mem_ids_of_mem_toApply {rs : List PluginRequest} {id : String} (h : id ∈ toApply rs) :
    id ∈ rs.map PluginRequest.id := by
  obtain ⟨r, hr, he⟩ := List.mem_map.mp h
  exact List.mem_map.mpr ⟨r, (List.mem_filter.mp hr).1, he⟩

theorem toApply_cons_applied {r : PluginRequest} (h : r.apply = true) (rs : List PluginRequest) :
    toApply (r :: rs) = r.id :: toApply rs := by
  rw [toApply, List.filter_cons_of_pos h, List.map_cons, toApply]

theorem toApply_cons_resolved {r : PluginRequest} (h : r.apply = false) (rs : List PluginRequest) :
    toApply (r :: rs) = toApply rs := by
  rw [toApply, List.filter_cons_of_neg (by simp [h]), toApply]

/-- What a step requests. -/
def Step.request? (s : Step) : Option PluginRequest :=
  match s.action with
  | .requestPlugin r => some r
  | _ => none

namespace BuildTarget

variable {t : BuildTarget} {m : PluginManager} {es es' : List TargetEvent} {s : Step} {id : String}

/-- A target after some more events. -/
def after (t : BuildTarget) (es : List TargetEvent) : BuildTarget :=
  { t with
    journal := t.journal ++ es
    properties := es.foldl TargetEvent.setIn t.properties
    plugins := t.plugins.map fun m =>
      { m with applied := m.applied ++ es.filterMap TargetEvent.plugin? } }

@[simp] theorem after_nil (t : BuildTarget) : t.after [] = t := by
  obtain ⟨_, _, _, _, _, _ | m⟩ := t <;> simp [after]

theorem after_append (t : BuildTarget) (es es' : List TargetEvent) :
    t.after (es ++ es') = (t.after es).after es' := by
  obtain ⟨_, _, _, _, _, _ | m⟩ := t <;> simp [after]

theorem println_eq (t : BuildTarget) (text : String) :
    t.println text = t.after [.console text] := by
  obtain ⟨_, _, _, _, _, _ | m⟩ := t <;>
    simp [println, after, TargetEvent.setIn, TargetEvent.plugin?, List.filterMap_cons]

theorem setProperty_eq (t : BuildTarget) (key value : String) :
    t.setProperty key value = t.after [.propertySet key value] := by
  obtain ⟨_, _, _, _, _, _ | m⟩ := t <;>
    simp [setProperty, after, TargetEvent.setIn, TargetEvent.plugin?, List.filterMap_cons]

theorem applied_after (hm : t.plugins = some m) (es : List TargetEvent) :
    (t.after es).applied = t.applied ++ es.filterMap TargetEvent.plugin? := by
  simp only [applied, after, hm, Option.map_some, Option.elim_some]

theorem mem_applied_after (es : List TargetEvent) (h : id ∈ t.applied) :
    id ∈ (t.after es).applied := by
  cases hm : t.plugins with
  | none => simp [applied, hm] at h
  | some m =>
    rw [applied_after hm]
    exact List.mem_append_left _ h

/-- Whether a plugin is there or can be found. -/
def finds (t : BuildTarget) (id : String) : Bool := t.plugins.any fun m => m.has id || m.knows id

theorem finds_of_plugins_none (hm : t.plugins = none) (id : String) : t.finds id = false := by
  rw [finds, hm, Option.any_none]

/-- Events that record only plugins which the target finds. -/
def Found (t : BuildTarget) (es : List TargetEvent) : Prop :=
  ∀ id, .pluginApplied id ∈ es → t.finds id = true

theorem Found.append (h : t.Found es) (h' : t.Found es') : t.Found (es ++ es') := fun id hid =>
  (List.mem_append.mp hid).elim (h id) (h' id)

/-- A plugin that is recorded as it is found makes no other be found. -/
theorem finds_after (h : t.Found es) (id : String) : (t.after es).finds id = t.finds id := by
  cases hm : t.plugins with
  | none => simp only [finds, after, hm, Option.map_none]
  | some m =>
    -- What the events record was there or known before them.
    have hnew (id : String) (hid : id ∈ es.filterMap TargetEvent.plugin?) :
        (m.has id || m.knows id) = true := by
      obtain ⟨e, he, hplugin⟩ := List.mem_filterMap.mp hid
      cases e with
      | pluginApplied id' =>
        cases hplugin
        have hfinds := h id he
        rwa [finds, hm, Option.any_some] at hfinds
      | console line => cases hplugin
      | propertySet key value => cases hplugin
    simp only [finds, after, hm, Option.map_some, Option.any_some, PluginManager.has,
      List.mem_append]
    show (decide _ || m.knows id) = (decide _ || m.knows id)
    by_cases hknows : m.knows id = true
    · simp only [hknows, Bool.or_true]
    · have hhas (hid : id ∈ es.filterMap TargetEvent.plugin?) : id ∈ m.applied := by
        have hor := hnew id hid
        simpa [hknows, PluginManager.has] using hor
      simp only [hknows, Bool.or_false, decide_eq_decide]
      exact ⟨fun hid => hid.elim (fun hold => hold) hhas, .inl⟩

theorem finds_eq_after (h : t.Found es) : (t.after es).finds = t.finds := funext (finds_after h)

/-! ## 2. What steps record -/

/-- Whether a step can be done. -/
def allows (t : BuildTarget) (s : Step) : Bool :=
  match s.action with
  | .applyPlugin id => t.finds id
  | _ => true

/-- What one step records.  A plugin that is there is not recorded again. -/
def eventOf (t : BuildTarget) (s : Step) : List TargetEvent :=
  match s.action with
  | .println text => [.console text]
  | .setProperty key value => [.propertySet key value]
  | .requestPlugin _ => []
  | .applyPlugin id => if id ∈ t.applied then [] else [.pluginApplied id]

/-- What steps record, one after the other. -/
def eventsOf (t : BuildTarget) : List Step → List TargetEvent
  | [] => []
  | s :: ss => t.eventOf s ++ (t.after (t.eventOf s)).eventsOf ss

theorem found_eventOf (h : t.allows s = true) : t.Found (t.eventOf s) := by
  intro id hid
  obtain ⟨line, action⟩ := s
  cases action with
  | println text => simp [eventOf] at hid
  | setProperty key value => simp [eventOf] at hid
  | requestPlugin r => simp [eventOf] at hid
  | applyPlugin id' =>
    simp only [eventOf] at hid
    split at hid
    · cases hid
    · obtain rfl : id = id' := by simpa using hid
      exact h

theorem allows_after (h : t.Found es) : (t.after es).allows = t.allows := by
  funext s
  obtain ⟨line, action⟩ := s
  cases action with
  | applyPlugin id => exact finds_after h id
  | println text => rfl
  | setProperty key value => rfl
  | requestPlugin r => rfl

theorem found_eventsOf {ss : List Step} (h : ∀ s ∈ ss, t.allows s = true) :
    t.Found (t.eventsOf ss) := by
  induction ss generalizing t with
  | nil => exact fun _ hid => absurd hid List.not_mem_nil
  | cons s ss ih =>
    have hs : t.Found (t.eventOf s) := found_eventOf (h s List.mem_cons_self)
    refine hs.append fun id hid => ?_
    rw [← finds_after hs id]
    refine ih (fun s' hs' => ?_) id hid
    rw [allows_after hs]
    exact h s' (List.mem_cons_of_mem s hs')

/-! ## 3. What requests record -/

/-- What plugins record that are applied in order, all different. -/
def newly (t : BuildTarget) (ids : List String) : List TargetEvent :=
  (ids.filter (· ∉ t.applied)).map .pluginApplied

theorem found_newly {ids : List String} (h : ∀ id ∈ ids, t.finds id = true) (t' : BuildTarget) :
    t.Found (t'.newly ids) := by
  intro id hid
  obtain ⟨id', hmem, he⟩ := List.mem_map.mp hid
  cases he
  exact h id (List.mem_filter.mp hmem).1

/-- A plugin that is found is there when it has been applied. -/
theorem mem_applied_after_newly {ids : List String} (hid : id ∈ ids) (hfinds : t.finds id = true) :
    id ∈ (t.after (t.newly ids)).applied := by
  cases hm : t.plugins with
  | none => simp [finds, hm] at hfinds
  | some m =>
    rw [applied_after hm, List.mem_append]
    by_cases hhas : id ∈ t.applied
    · exact .inl hhas
    · right
      refine List.mem_filterMap.mpr ⟨.pluginApplied id, List.mem_map.mpr ⟨id, ?_, rfl⟩, rfl⟩
      exact List.mem_filter.mpr ⟨hid, decide_eq_true hhas⟩

/-- Another plugin in front makes no difference to plugins that are not it. -/
theorem newly_cons {ids : List String} (hm : t.plugins = some m) (hid : id ∉ ids) :
    t.newly (id :: ids) =
      t.newly [id] ++ (t.after (t.newly [id])).newly ids := by
  have hrest : (t.after (t.newly [id])).newly ids = t.newly ids := by
    unfold newly
    congr 1
    refine List.filter_congr fun id' hmem => decide_eq_decide.mpr (not_congr ?_)
    rw [applied_after hm, List.mem_append]
    refine ⟨fun h => h.elim (fun hold => hold) fun hnew => ?_, .inl⟩
    obtain ⟨e, he, hplugin⟩ := List.mem_filterMap.mp hnew
    obtain ⟨id'', hone, rfl⟩ := List.mem_map.mp he
    cases hplugin
    obtain rfl := List.mem_singleton.mp (List.mem_filter.mp hone).1
    exact absurd hmem hid
  rw [hrest]
  unfold newly
  rw [← List.map_append, ← List.filter_append, List.singleton_append]

/-- A plugin is applied if it can be found, and recorded if it is new. -/
theorem applyPlugin_eq (hm : t.plugins = some m) (id : String) : t.applyPlugin m id =
    if t.finds id then .ok (!m.has id, t.after (t.newly [id])) else .error (.notFound id) := by
  have hfinds : t.finds id = (m.has id || m.knows id) := by rw [finds, hm, Option.any_some]
  have happlied : t.applied = m.applied := by rw [applied, hm, Option.elim_some]
  rw [hfinds, BuildTarget.applyPlugin, PluginManager.apply, newly, happlied]
  cases hhas : m.has id with
  | true =>
    have hid : id ∈ m.applied := of_decide_eq_true hhas
    obtain ⟨_, _, _, _, _, _⟩ := t
    cases hm
    simp [hid]
  | false =>
    have hid : id ∉ m.applied := of_decide_eq_false hhas
    cases hknows : m.knows id with
    | true => simp [hid, after, hm, TargetEvent.setIn, TargetEvent.plugin?]
    | false => simp

theorem finds_after_newly_singleton (h : t.finds id = true) :
    (t.after (t.newly [id])).finds = t.finds :=
  finds_eq_after (found_newly (fun _ hid => List.mem_singleton.mp hid ▸ h) t)

theorem newly_singleton (t : BuildTarget) (id : String) :
    t.newly [id] = if id ∈ t.applied then [] else [.pluginApplied id] := by
  by_cases hid : id ∈ t.applied <;> simp [newly, hid]

end BuildTarget

/-! ## 4. Executions -/

/-- A result that is an answer just if a condition holds, and that leaves a target in either
case. -/
structure Execution.Leaves {ε α : Type} (r : Execution.Result ε α) (ok : Bool) (t : BuildTarget) :
    Prop where
  ends : r.1.isOk = ok
  target : r.2.target = t

namespace Execution

variable {x : Execution} {t : BuildTarget} {ε α : Type}

theorem Leaves.cases {r : Result ε α} {ok : Bool} (h : Leaves r ok t) :
    (∃ a x, r = (.ok a, x) ∧ ok = true ∧ x.target = t) ∨
      ∃ e x, r = (.error e, x) ∧ ok = false ∧ x.target = t := by
  obtain ⟨e | a, x⟩ := r
  · exact .inr ⟨e, x, rfl, h.ends.symm, h.target⟩
  · exact .inl ⟨a, x, rfl, h.ends.symm, h.target⟩

theorem leaves_applyPlugin {m : PluginManager} (hm : x.target.plugins = some m) (id : String) :
    Leaves (x.applyPlugin m id) (x.target.finds id)
      (x.target.after (if x.target.finds id then x.target.newly [id] else [])) := by
  unfold applyPlugin
  generalize hx : (if m.has id then x.report (.pluginPresent id) else x) = x'
  have ht : x'.target = x.target := by
    rw [← hx]
    split <;> rfl
  simp only [ht, BuildTarget.applyPlugin_eq hm]
  cases x.target.finds id with
  | true => exact ⟨rfl, rfl⟩
  | false => exact ⟨rfl, ht.trans (BuildTarget.after_nil _).symm⟩

/-- A step is done if the target allows it. -/
theorem leaves_step (x : Execution) (className : String) (requests : Requests) (s : Step) :
    Leaves (x.step className requests s) (x.target.allows s)
      (x.target.after (if x.target.allows s then x.target.eventOf s else [])) := by
  obtain ⟨line, action⟩ := s
  unfold step
  cases action with
  | println text => exact ⟨rfl, BuildTarget.println_eq ..⟩
  | setProperty key value => exact ⟨rfl, BuildTarget.setProperty_eq ..⟩
  | requestPlugin r => exact ⟨rfl, (BuildTarget.after_nil _).symm⟩
  | applyPlugin id =>
    show Leaves _ (x.target.finds id) (x.target.after (if x.target.finds id then
      (if id ∈ x.target.applied then [] else [.pluginApplied id]) else []))
    rw [← BuildTarget.newly_singleton]
    cases hm : x.target.plugins with
    | none =>
      rw [BuildTarget.finds_of_plugins_none hm]
      simp only [report, hm]
      exact ⟨rfl, (BuildTarget.after_nil _).symm⟩
    | some m =>
      have happly := leaves_applyPlugin (x := x.report (.stepRunning className line)) hm id
      simp only [report, hm] at happly ⊢
      rcases happly.cases with ⟨newly, x', hx, hok, ht⟩ | ⟨e, x', hx, hok, ht⟩
      · simp only [hx]
        exact ⟨hok.symm, ht⟩
      · simp only [hx]
        exact ⟨hok.symm, ht⟩

/-- Steps are done up to the first that the target does not allow. -/
theorem leaves_steps (x : Execution) (className : String) (requests : Requests) (ss : List Step) :
    Leaves (x.steps className requests ss) (ss.all x.target.allows)
      (x.target.after (x.target.eventsOf (ss.takeWhile x.target.allows))) := by
  induction ss generalizing x requests with
  | nil => exact ⟨rfl, (BuildTarget.after_nil _).symm⟩
  | cons s ss ih =>
    rw [steps, List.all_cons, List.takeWhile_cons]
    rcases (leaves_step x className requests s).cases with
      ⟨requests', x', hx, hok, ht⟩ | ⟨e, x', hx, hok, ht⟩
    · rw [hok, if_pos rfl] at ht
      -- The steps that follow are allowed after this one just as before it.
      have hallows : x'.target.allows = x.target.allows := by
        rw [ht, BuildTarget.allows_after (BuildTarget.found_eventOf hok)]
      have hrest := ih x' requests'
      rw [hallows] at hrest
      simp only [hx, hok, if_true, Bool.true_and]
      refine ⟨hrest.ends, ?_⟩
      rw [hrest.target, ht, BuildTarget.eventsOf, BuildTarget.after_append]
    · rw [hok, if_neg Bool.false_ne_true] at ht
      simp only [hx, hok, Bool.false_and]
      exact ⟨rfl, ht⟩

theorem requests_of_step {className : String} {requests rs : Requests} {s : Step}
    (h : (x.step className requests s).1 = .ok rs) : rs = requests ++ s.request?.toList := by
  obtain ⟨line, action⟩ := s
  unfold step at h
  cases action with
  | println text =>
    cases h
    exact (List.append_nil _).symm
  | setProperty key value =>
    cases h
    exact (List.append_nil _).symm
  | requestPlugin r =>
    cases h
    rfl
  | applyPlugin id =>
    simp only at h
    split at h
    · cases h
    · split at h
      · cases h
      · cases h
        exact (List.append_nil _).symm

/-- Steps that are all done request what each of them does. -/
theorem requests_of_steps {className : String} {requests rs : Requests} {ss : List Step}
    (h : (x.steps className requests ss).1 = .ok rs) :
    rs = requests ++ ss.filterMap Step.request? := by
  induction ss generalizing x requests with
  | nil =>
    cases h
    exact (List.append_nil _).symm
  | cons s ss ih =>
    rw [steps] at h
    rcases hstep : x.step className requests s with ⟨e | requests', x'⟩
    · rw [hstep] at h
      cases h
    · rw [hstep] at h
      have hone : requests' = requests ++ s.request?.toList :=
        requests_of_step (congrArg Prod.fst hstep)
      rw [ih h, hone, List.append_assoc, List.filterMap_cons]
      cases s.request? <;> rfl

/-- Requests are applied up to the first whose plugin is not found. -/
theorem leaves_applyEach (x : Execution) {rs : List PluginRequest}
    (hnodup : (rs.map PluginRequest.id).Nodup) :
    Leaves (x.applyEach rs) ((toApply rs).all x.target.finds)
      (x.target.after (x.target.newly ((toApply rs).takeWhile x.target.finds))) := by
  induction rs generalizing x with
  | nil => exact ⟨rfl, (BuildTarget.after_nil _).symm⟩
  | cons r rs ih =>
    rw [List.map_cons, List.nodup_cons] at hnodup
    rw [applyEach]
    cases happly : r.apply with
    | false =>
      rw [toApply_cons_resolved happly]
      exact ih (x.report _) hnodup.2
    | true =>
      rw [toApply_cons_applied happly, List.all_cons, List.takeWhile_cons, if_pos rfl]
      cases hm : x.target.plugins with
      | none =>
        rw [BuildTarget.finds_of_plugins_none hm]
        exact ⟨rfl, (BuildTarget.after_nil _).symm⟩
      | some m =>
        rcases (leaves_applyPlugin hm r.id).cases with
          ⟨newly, x', hx, hok, ht⟩ | ⟨e, x', hx, hok, ht⟩
        · rw [hok, if_pos rfl] at ht
          -- No id is requested twice, so which of the others are new does not depend on this one.
          have hid : r.id ∉ toApply rs := fun hmem => hnodup.1 (mem_ids_of_mem_toApply hmem)
          have hfinds : x'.target.finds = x.target.finds := by
            rw [ht, BuildTarget.finds_after_newly_singleton hok]
          have hrest := ih (x'.report (.pluginApplied r.id x'.target.name r.display newly)) hnodup.2
          change Leaves _ ((toApply rs).all x'.target.finds) (x'.target.after
            (x'.target.newly ((toApply rs).takeWhile x'.target.finds))) at hrest
          rw [hfinds] at hrest
          simp only [hx, hok, if_true, Bool.true_and]
          refine ⟨hrest.ends, ?_⟩
          have hid' : r.id ∉ (toApply rs).takeWhile x.target.finds :=
            fun hmem => hid ((List.takeWhile_prefix _).subset hmem)
          rw [hrest.target, ht, BuildTarget.newly_cons hm hid', BuildTarget.after_append]
        · rw [hok, if_neg Bool.false_ne_true] at ht
          simp only [hx, hok, Bool.false_and]
          exact ⟨rfl, ht⟩

end Execution

end ScriptPlugins
