import ScriptPlugins.Proofs.Cache.Writing
import ScriptPlugins.Proofs.Script.Names

/-!
# Compiling through the cache — what a phase answers, and the entry it leaves

A phase of a script is compiled into the entry of its name.  What it answers, and what the entry is
then, depends on nothing but the script and the entry at hand, whatever other names are compiled in
between.
-/

namespace ScriptPlugins

/-! ## 1. Plans and entries -/

/-- The steps of a phase, unless its compiler crashes or its source is wrong. -/
def Script.plan (s : Script) (compiler : Compiler) (phase : Phase) :
    Except BuildError (List Step) :=
  match compiler.crash? (s.classNameOf phase) (s.sourceOf phase) with
  | some reason => .error (.crashed s.id reason)
  | none => (stepsOf phase phase.hook (s.sourceOf phase)).mapError (.notCompiled phase s.id)

theorem Script.plan_eq_ok {s : Script} {compiler : Compiler} {phase : Phase} {steps : List Step}
    (h : s.plan compiler phase = .ok steps) :
    compiler.crash? (s.classNameOf phase) (s.sourceOf phase) = none ∧
      stepsOf phase phase.hook (s.sourceOf phase) = .ok steps := by
  rw [plan] at h
  split at h
  next => cases h
  next hcrash => exact ⟨hcrash, mapError_eq_ok h⟩

theorem Script.plan_eq_error {s : Script} {compiler : Compiler} {phase : Phase} {err : BuildError}
    (h : s.plan compiler phase = .error err) :
    (∃ reason, compiler.crash? (s.classNameOf phase) (s.sourceOf phase) = some reason ∧
      err = .crashed s.id reason) ∨
    (compiler.crash? (s.classNameOf phase) (s.sourceOf phase) = none ∧
      ∃ cause, stepsOf phase phase.hook (s.sourceOf phase) = .error cause ∧
        err = .notCompiled phase s.id cause) := by
  rw [plan] at h
  split at h
  next reason hcrash => exact .inl ⟨reason, hcrash, (Except.error.inj h).symm⟩
  next hcrash =>
    obtain ⟨cause, hcause, rfl⟩ := mapError_eq_error h
    exact .inr ⟨hcrash, cause, hcause, rfl⟩

/-- Whether an entry is fresh for a phase of a script. -/
def Made.serves (m : Made) (s : Script) (phase : Phase) : Bool :=
  m.phase = phase ∧ m.script.kind = s.kind ∧ m.script.contentHash = s.contentHash

/-- The fresh entry for a phase, if there is one. -/
def Script.fresh? (s : Script) (phase : Phase) (entry : Option Made) : Option Made :=
  entry.filter (·.serves s phase)

/-- The entry for a phase after it was made fresh at some time. -/
def Script.entryFor (s : Script) (compiler : Compiler) (phase : Phase) (now : Instant)
    (entry : Option Made) : Except BuildError Made :=
  match s.fresh? phase entry with
  | some m => .ok m
  | none => (s.plan compiler phase).map fun steps => ⟨s, phase, steps, now⟩

/-- It was there and serves the phase, or it is made of the steps of the script. -/
theorem Script.entryFor_eq_ok {s : Script} {compiler : Compiler} {phase : Phase} {now : Instant}
    {entry : Option Made} {m : Made} (h : s.entryFor compiler phase now entry = .ok m) :
    (entry = some m ∧ m.serves s phase = true) ∨ (s.fresh? phase entry = none ∧
      ∃ steps, s.plan compiler phase = .ok steps ∧ m = ⟨s, phase, steps, now⟩) := by
  rw [entryFor] at h
  split at h
  next m' hm' =>
    cases h
    exact .inl (Option.filter_eq_some_iff.mp hm')
  next hnone =>
    obtain ⟨steps, hsteps, rfl⟩ := map_eq_ok h
    exact .inr ⟨hnone, steps, hsteps, rfl⟩

theorem Script.entryFor_eq_error {s : Script} {compiler : Compiler} {phase : Phase} {now : Instant}
    {entry : Option Made} {e : BuildError} (h : s.entryFor compiler phase now entry = .error e) :
    s.plan compiler phase = .error e := by
  rw [entryFor] at h
  split at h
  next => cases h
  next => exact map_eq_error h

/-- A script whose names and lines the cache can take. -/
structure Script.FitsIn (s : Script) (c : Cache) : Prop where
  names : ∀ phase, c.Takes (s.classNameOf phase)
  lines : 1 + Language.lineFeeds s.source.toList ≤ lineLimit

/-- A cache with room below its roots takes every script whose id is not too long. -/
theorem Script.FitsIn.of_short {s : Script} {c : Cache} (hclasses : FileTree.Room c.classesRoot 512)
    (hmetadata : FileTree.Room c.metadataRoot 512) (hid : s.id.toList.length ≤ 200)
    (hlines : 1 + Language.lineFeeds s.source.toList ≤ lineLimit) : s.FitsIn c where
  names phase := by
    obtain ⟨hplain, hshort, hlong⟩ := s.plain_classNameOf phase
    exact .of_plain hclasses hmetadata hplain hshort (by omega)
  lines := hlines

theorem Script.sound_of_plan {s : Script}
    (hlines : 1 + Language.lineFeeds s.source.toList ≤ lineLimit)
    {compiler : Compiler} {phase : Phase} {steps : List Step}
    (h : s.plan compiler phase = .ok steps)
    {now : Instant} (hnow : now.valid = true) : Made.Sound ⟨s, phase, steps, now⟩ :=
  ⟨(plan_eq_ok h).2, hlines, hnow⟩

/-- Fresh metadata is what was asked for. -/
theorem Made.freshness_metadata {m : Made} {c : Cache} {s : Script} {phase : Phase}
    (hname : m.name = s.classNameOf phase) :
    (m.serves s phase = true → (c.key s phase).freshness m.metadata = .fresh) ∧
      (m.serves s phase = false → ∃ reason, (c.key s phase).freshness m.metadata =
        .stale reason) := by
  have hclass : ¬m.metadata.className ≠ (c.key s phase).className := not_not.mpr hname
  rw [UnitKey.freshness, if_neg hclass]
  simp only [serves, decide_eq_true_eq, decide_eq_false_iff_not]
  constructor
  · rintro ⟨h₁, h₂, h₃⟩
    have hkind : ¬(m.metadata.phase ≠ (c.key s phase).phase ∨
        m.metadata.kind ≠ (c.key s phase).kind) :=
      not_or.mpr ⟨not_not.mpr h₁, not_not.mpr h₂⟩
    have hhash : ¬m.metadata.contentHash ≠ (c.key s phase).contentHash := not_not.mpr h₃
    rw [if_neg hkind, if_neg hhash]
  · intro h
    split
    · exact ⟨_, rfl⟩
    next h₁ =>
      split
      · exact ⟨_, rfl⟩
      next h₂ =>
        rw [not_or, not_not, not_not] at h₁
        exact absurd ⟨h₁.1, h₁.2, not_not.mp h₂⟩ h

theorem Made.check_metadata {m : Made} {c : Cache} {s : Script} {phase : Phase}
    (hname : m.name = s.classNameOf phase) (h : m.serves s phase = true) :
    (c.key s phase).check m.metadata = .ok () := by
  simp only [serves, decide_eq_true_eq] at h
  obtain ⟨h₁, h₂, h₃⟩ := h
  have hclass : ¬m.metadata.className ≠ (c.key s phase).className := not_not.mpr hname
  have hkind : ¬(m.metadata.phase ≠ (c.key s phase).phase ∨
      m.metadata.kind ≠ (c.key s phase).kind) :=
    not_or.mpr ⟨not_not.mpr h₁, not_not.mpr h₂⟩
  have hhash : ¬m.metadata.contentHash ≠ (c.key s phase).contentHash := not_not.mpr h₃
  rw [UnitKey.check, if_neg hclass, if_neg hkind, if_neg hhash]

/-- What is left of an entry when it is about to be compiled anew. -/
def Freshness.leaves : Freshness → Boxes → Boxes
  | .stale _, _ => .none
  | .missing, b | .fresh, b => b

/-- An entry is judged fresh if it serves the phase; one that is not is stale or missing. -/
theorem Made.exists_judge {c : Cache} {s : Script} {phase : Phase} {entry : Option Made}
    (h : ∀ m, entry = some m → m.name = s.classNameOf phase ∧ m.Sound) :
    ∃ f, (c.key s phase).judge (Boxes.ofMade entry) = .ok f ∧
      f.leaves (Boxes.ofMade entry) = (if f = .fresh then Boxes.ofMade entry else .none) ∧
      (f = .fresh ↔ (s.fresh? phase entry).isSome = true) := by
  cases entry with
  | none => exact ⟨.missing, rfl, rfl, by simp [Script.fresh?]⟩
  | some m =>
    obtain ⟨hname, hsound⟩ := h m rfl
    have hjudge : (c.key s phase).judge (Boxes.ofMade (some m)) = _ := Made.judge_boxes hsound _
    obtain ⟨hfresh, hstale⟩ := Made.freshness_metadata (c := c) hname
    cases hserves : m.serves s phase with
    | true =>
      exact ⟨.fresh, by rw [hjudge, hfresh hserves], rfl, by simp [Script.fresh?, hserves]⟩
    | false =>
      obtain ⟨reason, hreason⟩ := hstale hserves
      exact ⟨.stale reason, by rw [hjudge, hreason], rfl, by simp [Script.fresh?, hserves]⟩

namespace Cache

open Owning

variable {c : Cache} {o : Owning} {C M : Location} {K : Set String} {F : o.Frame K} {w : World}
  {e : Tally} {name : String} {s : Script} {phase : Phase}

/-! ## 2. Compiling an entry anew -/

variable {boxes : String → Boxes} {made : String → Option Made} {compiler : Compiler}

theorem answers_compileEntry (hseat : Seat o C M K) (hn : s.classNameOf phase ∈ K)
    (ht : c.Takes (s.classNameOf phase)) (h : c.Knows o C M F boxes w) {steps : List Step}
    (hplan : s.plan compiler phase = .ok steps) :
    o.Answers K (c.compileEntry compiler s phase) e w fun _ e' w' => e' = e ∧
      ∃ now, now.valid = true ∧ c.Knows o C M F (Function.update boxes (s.classNameOf phase)
        (Made.boxes ⟨s, phase, steps, now⟩)) w' := by
  obtain ⟨hcrash, hsteps⟩ := Script.plan_eq_ok hplan
  rw [compileEntry, hcrash]
  refine (answers_compile hseat hn ht h hsteps).adapt.bind fun _ e₁ w ⟨he₁, now, hnow, h'⟩ => ?_
  subst he₁
  exact (Answers.report (stable_knows hseat) h' (fun _ _ h => h.log _) _).imp
    fun _ e' w' ⟨he', h'⟩ => ⟨he', now, hnow, h'⟩

theorem refuses_compileEntry (hseat : Seat o C M K) (h : c.Knows o C M F boxes w) {err : BuildError}
    (hplan : s.plan compiler phase = .error err) :
    o.Refuses K (c.compileEntry compiler s phase) e w fun err' e' w' => err' = err ∧ e' = e ∧
      c.Knows o C M F boxes w' := by
  have hstable : o.Stable K (c.Knows o C M F boxes) := stable_knows hseat
  rw [compileEntry]
  rcases Script.plan_eq_error hplan with ⟨reason, hcrash, rfl⟩ | ⟨hcrash, cause, hcause, rfl⟩
  · rw [hcrash]
    exact Refuses.throw fun w' hw => ⟨rfl, rfl, hstable _ _ h hw⟩
  · rw [hcrash]
    refine Refuses.bind (Refuses.adapt ?_)
    rw [UnitKey.compile]
    exact Refuses.bind (Refuses.of hcause fun w' hw => ⟨rfl, rfl, hstable _ _ h hw⟩)

/-! ## 3. Making an entry fresh -/

/-- What is done about an entry once it has been looked at. -/
def renew (c : Cache) (compiler : Compiler) (s : Script) (phase : Phase) :
    Freshness → Attempt BuildError Bool
  | .fresh => do
    Attempt.report (.phaseReused s.id (s.classNameOf phase) phase.name)
    return false
  | .missing => do
    c.compileEntry compiler s phase
    return true
  | .stale reason => do
    Attempt.report (.entryStale s.id (s.classNameOf phase) reason)
    c.remove (s.classNameOf phase)
    c.compileEntry compiler s phase
    return true

variable (c s phase compiler) in
theorem refresh_eq : c.refresh compiler s phase = (do
    let t ← Attempt.files
    let f ← Attempt.of ((c.key s phase).probe t)
    c.renew compiler s phase f) := by
  rw [refresh]
  refine congrArg (Attempt.files >>= ·) (funext fun t => ?_)
  refine congrArg (Attempt.of ((c.key s phase).probe t) >>= ·) (funext fun f => ?_)
  cases f <;> rfl

/-- An entry is made fresh as its boxes tell. -/
theorem ends_refresh_of_judge (hseat : Seat o C M K) (hn : s.classNameOf phase ∈ K)
    (ht : c.Takes (s.classNameOf phase)) (h : c.Knows o C M F boxes w) {f : Freshness}
    (hf : (c.key s phase).judge (boxes (s.classNameOf phase)) = .ok f)
    {R : Except BuildError Bool → Tally → World → Prop}
    (hr : ∀ w, c.Knows o C M F boxes w → o.Ends K R (c.renew compiler s phase f).run e w) :
    o.Ends K R (c.refresh compiler s phase).run e w := by
  have hstable : o.Stable K (c.Knows o C M F boxes) := stable_knows hseat
  rw [refresh_eq]
  refine (Answers.files hstable h).andThen fun t e₁ w ⟨⟨seen, hseen, ht'⟩, he₁, h⟩ => ?_
  subst he₁ ht'
  have hprobe := (hseen.shelf.probe hn ht).trans hf
  refine (Answers.of (P := fun r e' w' => r = f ∧ e' = e₁ ∧ c.Knows o C M F boxes w') hprobe
    fun w' hw => ⟨rfl, rfl, hstable _ _ h hw⟩).andThen fun r e₂ w ⟨hr', he₂, h⟩ => ?_
  subst hr' he₂
  exact hr w h

/-- A fresh entry stays. -/
theorem answers_renew_fresh (hseat : Seat o C M K) (h : c.Knows o C M F boxes w) :
    o.Answers K (c.renew compiler s phase .fresh) e w fun r e' w' => r = false ∧ e' = e ∧
      c.Knows o C M F boxes w' := by
  refine (Answers.report (stable_knows hseat) h (fun _ _ h => h.log _) _).bind
    fun _ e₁ w ⟨he₁, h⟩ => ?_
  exact Answers.pure fun w' hw => ⟨rfl, he₁, stable_knows hseat _ _ h hw⟩

/-- Any other entry is removed if it is stale, and compiled anew. -/
theorem ends_renew (hseat : Seat o C M K) (hn : s.classNameOf phase ∈ K)
    (ht : c.Takes (s.classNameOf phase)) (h : c.Knows o C M F boxes w) {f : Freshness}
    (hf : f ≠ .fresh) {R : Except BuildError Bool → Tally → World → Prop}
    (hr : ∀ w, c.Knows o C M F (Function.update boxes (s.classNameOf phase)
        (f.leaves (boxes (s.classNameOf phase)))) w →
      o.Ends K R
        (do c.compileEntry compiler s phase; return true : Attempt BuildError Bool).run e w) :
    o.Ends K R (c.renew compiler s phase f).run e w := by
  cases f with
  | fresh => exact absurd rfl hf
  | missing =>
    refine hr w ?_
    rwa [Freshness.leaves, Function.update_eq_self]
  | stale reason =>
    refine (Answers.report (stable_knows hseat) h (fun _ _ h => h.log _) _).andThen
      fun _ e₁ w ⟨he₁, h⟩ => ?_
    subst he₁
    refine (answers_remove hseat hn ht h).andThen fun _ e₂ w ⟨he₂, h'⟩ => ?_
    subst he₂
    exact hr w h'

/-- A source that is right is compiled anew. -/
theorem answers_renew (hseat : Seat o C M K) (hn : s.classNameOf phase ∈ K)
    (ht : c.Takes (s.classNameOf phase)) (h : c.Knows o C M F boxes w) {f : Freshness}
    (hf : f ≠ .fresh) {steps : List Step} (hplan : s.plan compiler phase = .ok steps) :
    o.Answers K (c.renew compiler s phase f) e w fun r e' w' => r = true ∧ e' = e ∧
      ∃ now, now.valid = true ∧ c.Knows o C M F (Function.update boxes (s.classNameOf phase)
        (Made.boxes ⟨s, phase, steps, now⟩)) w' := by
  refine ends_renew hseat hn ht h hf fun w h => ?_
  refine (answers_compileEntry hseat hn ht h hplan).bind fun _ e₁ w ⟨he₁, now, hnow, h'⟩ => ?_
  rw [Function.update_idem] at h'
  exact Answers.pure fun w' hw => ⟨rfl, he₁, now, hnow, stable_knows hseat _ _ h' hw⟩

/-- A source that is wrong leaves a stale entry removed. -/
theorem refuses_renew (hseat : Seat o C M K) (hn : s.classNameOf phase ∈ K)
    (ht : c.Takes (s.classNameOf phase)) (h : c.Knows o C M F boxes w) {f : Freshness}
    (hf : f ≠ .fresh) {err : BuildError} (hplan : s.plan compiler phase = .error err) :
    o.Refuses K (c.renew compiler s phase f) e w fun err' e' w' => err' = err ∧ e' = e ∧
      c.Knows o C M F (Function.update boxes (s.classNameOf phase)
        (f.leaves (boxes (s.classNameOf phase)))) w' :=
  ends_renew hseat hn ht h hf fun _ h => Refuses.bind (refuses_compileEntry hseat h hplan)

/-! ## 4. Entries that were made -/

/-- What some entries were made from. -/
structure Records (c : Cache) (o : Owning) (C M : Location) {K : Set String} (F : o.Frame K)
    (made : String → Option Made) (w : World) : Prop where
  knows : c.Knows o C M F (Boxes.ofMade ∘ made) w
  sound : ∀ n ∈ K, ∀ m, made n = some m → m.name = n ∧ m.Sound

theorem stable_records (hseat : Seat o C M K) : o.Stable K (c.Records o C M F made) :=
  fun _ _ h hw => ⟨stable_knows hseat _ _ h.knows hw, h.sound⟩

theorem Records.log (h : c.Records o C M F made w) (log : List Log.Event) :
    c.Records o C M F made { w with log } := ⟨h.knows.log log, h.sound⟩

theorem Records.update {entry : Option Made}
    (h : c.Knows o C M F (Function.update (Boxes.ofMade ∘ made) name (Boxes.ofMade entry)) w)
    (hold : ∀ n ∈ K, ∀ m, made n = some m → m.name = n ∧ m.Sound)
    (hnew : ∀ m, entry = some m → m.name = name ∧ m.Sound) :
    c.Records o C M F (Function.update made name entry) w := by
  refine ⟨by rwa [Function.comp_update], fun n hn m hm => ?_⟩
  by_cases he : n = name
  · subst he
    rw [Function.update_self] at hm
    exact hnew m hm
  · rw [Function.update_of_ne he] at hm
    exact hold n hn m hm

variable (c o C M F e s phase made compiler) in
/-- What becomes of an entry that is made fresh. -/
def Refreshed (r : Except BuildError Bool) (e' : Tally) (w' : World) : Prop :=
  e' = e ∧ ∃ now, now.valid = true ∧
    match s.entryFor compiler phase now (made (s.classNameOf phase)) with
    | .ok m => r = .ok (s.fresh? phase (made (s.classNameOf phase))).isNone ∧
        c.Records o C M F (Function.update made (s.classNameOf phase) (some m)) w'
    | .error err => r = .error err ∧
        c.Records o C M F (Function.update made (s.classNameOf phase) none) w'

variable (compiler) in
/-- **An entry is compiled unless it is fresh**, and what stands there then is what the phase asks
for. -/
theorem ends_refresh (hseat : Seat o C M K) (hn : s.classNameOf phase ∈ K)
    (ht : c.Takes (s.classNameOf phase))
    (hlines : 1 + Language.lineFeeds s.source.toList ≤ lineLimit)
    (h : c.Records o C M F made w) :
    o.Ends K (c.Refreshed o C M F e s phase made compiler)
      (c.refresh compiler s phase).run e w := by
  -- What was judged decides: a fresh entry stays, any other is made anew, and fails as its plan
  -- does.
  obtain ⟨f, hjudge, hleaves, hfresh⟩ := Made.exists_judge (c := c) (h.sound _ hn)
  refine ends_refresh_of_judge hseat hn ht h.knows hjudge fun w hknows => ?_
  by_cases hf : f = .fresh
  · subst hf
    obtain ⟨m, hm⟩ := Option.isSome_iff_exists.mp (hfresh.mp rfl)
    have hmade : made (s.classNameOf phase) = some m := (Option.filter_eq_some_iff.mp hm).1
    refine Ends.imp (answers_renew_fresh hseat hknows) ?_
    rintro r e' w' ⟨_, rfl, rfl, rfl, h'⟩
    refine ⟨rfl, w'.now, h'.now, ?_⟩
    rw [Script.entryFor, hm]
    refine ⟨rfl, ?_⟩
    rw [← hmade, Function.update_eq_self]
    exact ⟨h', h.sound⟩
  · have hnone : s.fresh? phase (made (s.classNameOf phase)) = none :=
      Option.not_isSome_iff_eq_none.mp fun hsome => hf (hfresh.mpr hsome)
    rw [if_neg hf] at hleaves
    cases hplan : s.plan compiler phase with
    | ok steps =>
      refine Ends.imp (answers_renew hseat hn ht hknows hf hplan) ?_
      rintro r e' w' ⟨_, rfl, rfl, rfl, now, hnow, h'⟩
      refine ⟨rfl, now, hnow, ?_⟩
      rw [Script.entryFor, hnone, hplan]
      refine ⟨rfl, Records.update h' h.sound fun m hm => ?_⟩
      cases hm
      exact ⟨rfl, Script.sound_of_plan hlines hplan hnow⟩
    | error err =>
      refine Ends.imp (refuses_renew hseat hn ht hknows hf hplan) ?_
      rintro r e' w' ⟨_, rfl, rfl, rfl, h'⟩
      refine ⟨rfl, w'.now, h'.now, ?_⟩
      rw [Script.entryFor, hnone, hplan]
      rw [Function.comp_apply, hleaves] at h'
      exact ⟨rfl, Records.update h' h.sound (by simp)⟩

end Cache

end ScriptPlugins
