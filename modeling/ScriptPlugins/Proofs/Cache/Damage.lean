import ScriptPlugins.Proofs.Cache.History

/-!
# Damage — what is wrong with an entry is put right when its script is compiled

Anything may stand in the two files of an entry.  If looking at them tells that they are missing or
stale, the phase is compiled into them anew.  Only what looking cannot tell stays: a class file that
is not the one which fresh metadata belongs to.
-/

namespace ScriptPlugins

open FileTree Owning

/-! ## 1. Boxes that can be judged -/

/-- Boxes that look fresh for a phase only if they hold a whole entry, made from one of some
scripts. -/
structure Boxes.Honest (b : Boxes) (used : Set Script) (k : UnitKey) : Prop where
  judged : (k.judge b).isOk = true
  whole : k.judge b = .ok .fresh → ∃ m : Made, m.Sound ∧ m.script ∈ used ∧ b = m.boxes

variable {c : Cache} {s : Script} {phase : Phase} {used : Set Script}

/-- Metadata that is fresh was made for what is asked for. -/
theorem Made.suits_of_fresh {m : Made}
    (h : (c.key s phase).freshness m.metadata = .fresh) : m.name = s.classNameOf phase ∧
      m.serves s phase = true := by
  by_cases hname : m.name = s.classNameOf phase
  · refine ⟨hname, ?_⟩
    obtain ⟨-, hstale⟩ := Made.freshness_metadata (c := c) hname
    cases hserves : m.serves s phase with
    | true => rfl
    | false =>
      obtain ⟨reason, hreason⟩ := hstale hserves
      rw [hreason] at h
      cases h
  · rw [UnitKey.freshness,
      if_pos (show m.metadata.className ≠ (c.key s phase).className from hname)] at h
    cases h

/-- An entry that tells what a phase says. -/
structure Made.Answers (m : Made) (s : Script) (phase : Phase) : Prop where
  sound : m.Sound
  name : m.name = s.classNameOf phase
  serves : m.serves s phase = true
  plan : s.plan .steady phase = .ok m.steps

theorem Made.Answers.content_unit {m : Made} (h : m.Answers s phase) (scope : Nat) :
    (m.unit scope).content = s.unitContent phase m.steps := by
  have hserves := h.serves
  simp only [Made.serves, decide_eq_true_eq] at hserves
  obtain ⟨hphase, hkind, hhash⟩ := hserves
  exact Made.content_unit h.name hphase hkind hhash scope

theorem Boxes.Honest.exists_judge {b : Boxes} {k : UnitKey} (h : b.Honest used k) :
    ∃ f, k.judge b = .ok f := by
  have hjudged := h.judged
  cases hj : k.judge b with
  | ok f => exact ⟨f, rfl⟩
  | error err =>
    rw [hj] at hjudged
    cases hjudged

/-- A whole entry that looks fresh tells what the phase says. -/
theorem Boxes.Honest.exists_answers {b : Boxes} (h : b.Honest used (c.key s phase))
    (hsource : Unmistaken used s) (hfresh : (c.key s phase).judge b = .ok .fresh) :
    ∃ m : Made, m.Answers s phase ∧ b = m.boxes := by
  obtain ⟨m, hsound, hused, rfl⟩ := h.whole hfresh
  rw [Made.judge_boxes hsound] at hfresh
  obtain ⟨hname, hserves⟩ := Made.suits_of_fresh (Except.ok.inj hfresh)
  obtain ⟨-, -, hsteps⟩ := Made.stepsOf_of_serves hsource hsound hused hserves
  have hplan : s.plan .steady phase = .ok m.steps := by
    show (stepsOf phase phase.hook (s.sourceOf phase)).mapError _ = _
    rw [hsteps]
    rfl
  exact ⟨m, ⟨hsound, hname, hserves, hplan⟩, rfl⟩

namespace Cache

variable {o : Owning} {C M : Location} {K : Set String} {boxes : String → Boxes} {t : FileTree}
  {w : World} {e : Tally} {exports : String → Option CompiledClass}

/-! ## 2. One phase -/

theorem Shelf.congr {boxes' : String → Boxes} (h : c.Shelf o C M K boxes t)
    (hb : ∀ n ∈ K, boxes n = boxes' n) : c.Shelf o C M K boxes' t where
  classesRoot := h.classesRoot
  metadataRoot := h.metadataRoot
  classes n hn := hb n hn ▸ h.classes n hn
  metadata n hn := hb n hn ▸ h.metadata n hn

/-- What is known of one name whose entry was made. -/
theorem Knows.stands {n : String} {m : Made}
    (h : c.Knows o C M (o.exporting {n} exports) boxes w) (hb : boxes n = m.boxes)
    (hname : m.name = n) (hsound : m.Sound) :
    c.Stands o C M {n} (fun _ => some m) exports w := by
  refine ⟨⟨h.shelf.congr fun n' hn' => ?_, h.scopes, h.now⟩, fun n' hn' m' hm' => ?_⟩
  · rw [Set.mem_singleton_iff.mp hn', hb]
    rfl
  · rw [Set.mem_singleton_iff.mp hn', ← Option.some.inj hm']
    exact ⟨hname, hsound⟩

/-- A phase is loaded from a whole entry that tells what it says. -/
theorem ends_loadPhase_of_answers (hseat : Seat o C M {s.classNameOf phase}) (hs : s.FitsIn c)
    {m : Made} (hm : m.Answers s phase)
    (h : c.Stands o C M {s.classNameOf phase} (fun _ => some m) exports w)
    (hx : exports (s.classNameOf phase) = none) (compiled : Bool) :
    o.Ends {s.classNameOf phase} (fun r _ _ => r.map (fun r => r.1.content) =
        (s.plan .steady phase).map (s.unitContent phase))
      (c.loadPhase s o.scope phase compiled).run e w := by
  have hload :=
    ends_loadPhase (e := e) hseat (Set.mem_singleton _) (hs.names phase) h rfl hm.serves hx compiled
  refine Ends.imp hload ?_
  rintro r e' w' ⟨_, rfl, rfl, -, -⟩
  rw [hm.plan]
  exact congrArg Except.ok (hm.content_unit o.scope)

/-- **A phase answers what it says**, whatever is wrong with its entry. -/
theorem ends_compilePhase_of_honest (hseat : Seat o C M {s.classNameOf phase}) (hs : s.FitsIn c)
    (h : c.Knows o C M (o.exporting {s.classNameOf phase} exports) boxes w)
    (hhonest : (boxes (s.classNameOf phase)).Honest used (c.key s phase))
    (hsource : Unmistaken used s) (hx : exports (s.classNameOf phase) = none) :
    o.Ends {s.classNameOf phase} (fun r _ _ => r.map (fun r => r.1.content) =
        (s.plan .steady phase).map (s.unitContent phase))
      (c.compilePhase .steady s o.scope phase).run e w := by
  have hn : s.classNameOf phase ∈ ({s.classNameOf phase} : Set String) := Set.mem_singleton _
  have ht := hs.names phase
  obtain ⟨f, hf⟩ := hhonest.exists_judge
  rw [compilePhase_eq]
  by_cases hfresh : f = .fresh
  · -- What looks fresh is whole, and answers.
    subst hfresh
    obtain ⟨m, hm, hb⟩ := hhonest.exists_answers hsource hf
    have hrefresh : o.Answers _ (c.refresh .steady s phase) e w fun r e' w' => r = false ∧ e' = e ∧
        c.Knows o C M (o.exporting {s.classNameOf phase} exports) boxes w' :=
      ends_refresh_of_judge hseat hn ht h hf fun _ h => answers_renew_fresh hseat h
    refine hrefresh.andThen fun _ e₁ w h => ?_
    obtain ⟨-, -, h⟩ := h
    exact ends_loadPhase_of_answers hseat hs hm (h.stands hb hm.name hm.sound) hx _
  · cases hplan : s.plan .steady phase with
    | error err =>
      have hrefresh : o.Refuses _ (c.refresh .steady s phase) e w fun err' _ _ => err' = err :=
        ends_refresh_of_judge hseat hn ht h hf fun _ h =>
          (refuses_renew hseat hn ht h hfresh hplan).imp fun _ _ _ h => h.1
      refine Ends.imp (Refuses.bind hrefresh) ?_
      rintro r e' w' ⟨_, rfl, rfl⟩
      rfl
    | ok steps =>
      -- The entry that is compiled in its place answers by how it was made.
      have hrefresh : o.Answers _ (c.refresh .steady s phase) e w fun r e' w' => r = true ∧ e' = e ∧
          ∃ now, now.valid = true ∧ c.Knows o C M (o.exporting {s.classNameOf phase} exports)
            (Function.update boxes (s.classNameOf phase) (Made.boxes ⟨s, phase, steps, now⟩)) w' :=
        ends_refresh_of_judge hseat hn ht h hf fun _ h => answers_renew hseat hn ht h hfresh hplan
      refine hrefresh.andThen fun _ e₁ w h => ?_
      obtain ⟨-, -, now, hnow, h⟩ := h
      have hsound : Made.Sound ⟨s, phase, steps, now⟩ := Script.sound_of_plan hs.lines hplan hnow
      have hanswers : Made.Answers ⟨s, phase, steps, now⟩ s phase :=
        ⟨hsound, rfl, by simp [Made.serves], hplan⟩
      have hstands := h.stands (m := ⟨s, phase, steps, now⟩) (Function.update_self ..) rfl hsound
      rw [← hplan]
      exact ends_loadPhase_of_answers hseat hs hanswers hstands hx _

/-! ## 3. Whole scripts -/

theorem Seat.mono {K' : Set String} (h : Seat o C M K) (hk : K' ⊆ K) : Seat o C M K' where
  classes n hn := h.classes n (hk hn)
  metadata n hn := h.metadata n (hk hn)
  names := hk.trans h.names
  apart := h.apart
  apart' := h.apart'

theorem Shelf.mono {K' : Set String} (h : c.Shelf o C M K boxes t) (hk : K' ⊆ K) :
    c.Shelf o C M K' boxes t where
  classesRoot := h.classesRoot
  metadataRoot := h.metadataRoot
  classes n hn := h.classes n (hk hn)
  metadata n hn := h.metadata n (hk hn)

/-- What a phase answers when it runs alone.  What is known of other names stays known. -/
theorem run_compilePhase_of_honest (hseat : Seat o C M {s.classNameOf phase}) (hs : s.FitsIn c)
    (h : c.Knows o C M (o.exporting {s.classNameOf phase} exports) boxes w)
    (hhonest : (boxes (s.classNameOf phase)).Honest used (c.key s phase))
    (hsource : Unmistaken used s) (hx : exports (s.classNameOf phase) = none) :
    ∃ r w', Job.run (c.compilePhase .steady s o.scope phase).run w = (r, w') ∧
      r.map (fun r => r.1.content) = (s.plan .steady phase).map (s.unitContent phase) ∧
      o.Keeps {s.classNameOf phase} w w' := by
  have hends := (ends_compilePhase_of_honest (e := 0) hseat hs h hhonest hsource hx).run
  cases hrun : Job.run (c.compilePhase .steady s o.scope phase).run w with
  | mk r w' =>
    rw [hrun] at hends
    obtain ⟨hk, -, -, hr⟩ := hends
    exact ⟨r, w', rfl, hr, hk⟩

/-- What a preamble answers when it runs alone, if there is one. -/
theorem run_compilePreamble_of_honest (hseat : Seat o C M {s.classNameOf .preamble})
    (hs : s.FitsIn c)
    (h : c.Knows o C M (o.exporting {s.classNameOf .preamble} exports) boxes w)
    (hhonest : (boxes (s.classNameOf .preamble)).Honest used (c.key s .preamble))
    (hsource : Unmistaken used s) (hx : exports (s.classNameOf .preamble) = none) :
    ∃ r w', Job.run (c.compilePreamble .steady s o.scope).run w = (r, w') ∧
      r.map (fun r => r.1.map LoadedUnit.content) = s.preambleContent ∧
      o.Keeps {s.classNameOf .preamble} w w' := by
  rw [compilePreamble, Script.preambleContent]
  split
  · obtain ⟨r, w', hrun, hcontent, hk⟩ :=
      run_compilePhase_of_honest hseat hs h hhonest hsource hx
    cases hplan : s.plan .steady .preamble with
    | error err =>
      rw [hplan] at hcontent
      obtain ⟨err', rfl⟩ : ∃ err', r = .error err' := by
        cases r with
        | ok r => cases hcontent
        | error err' => exact ⟨err', rfl⟩
      exact ⟨_, w', Attempt.run_bind_error hrun,
        congrArg Except.error (Except.error.inj hcontent), hk⟩
    | ok steps =>
      rw [hplan] at hcontent
      obtain ⟨⟨unit, compiled⟩, rfl⟩ : ∃ u, r = .ok u := by
        cases r with
        | ok r => exact ⟨r, rfl⟩
        | error err' => cases hcontent
      exact ⟨_, w', Attempt.run_bind_ok hrun,
        congrArg (fun u => Except.ok (some u)) (Except.ok.inj hcontent), hk⟩
  · exact ⟨_, w, rfl, rfl, .refl ..⟩

/-- A script answers what it says when it runs alone. -/
theorem content_compileScript_of_honest (hseat : ∀ phase, Seat o C M {s.classNameOf phase})
    (hs : s.FitsIn c)
    (h : ∀ phase, c.Knows o C M (o.exporting {s.classNameOf phase} fun _ => none) boxes w)
    (hhonest : ∀ phase, (boxes (s.classNameOf phase)).Honest used (c.key s phase))
    (hsource : Unmistaken used s) :
    (Job.run (c.compileScript .steady s o.scope).run w).1.map CompiledScript.content =
      s.content := by
  obtain ⟨r, w₁, hrun, hpre, hk⟩ :=
    run_compilePreamble_of_honest (hseat _) hs (h _) (hhonest _) hsource rfl
  -- What the preamble does leaves the entry of the body alone.
  have hother : ({s.classNameOf .preamble} : Set String) ⊆ {s.classNameOf .body}ᶜ :=
    Set.singleton_subset_iff.mpr s.classNameOf_ne
  have h₁ := stable_knows (hseat .body) _ _ (h .body) (hk.mono hother)
  obtain ⟨r', w₂, hrun', hbody, -⟩ :=
    run_compilePhase_of_honest (hseat .body) hs h₁ (hhonest _) hsource rfl
  rw [compileScript, Script.content, ← hpre]
  rcases r with err | ⟨preamble, recompiled⟩
  · rw [Attempt.run_bind_error hrun]
    rfl
  · rw [Attempt.run_bind_ok hrun]
    cases hplan : s.plan .steady .body with
    | error err =>
      rw [hplan] at hbody
      rcases r' with err' | u
      · rw [Attempt.run_bind_error hrun']
        exact congrArg Except.error (Except.error.inj hbody)
      · cases hbody
    | ok steps =>
      rw [hplan] at hbody
      rcases r' with err' | ⟨body, compiled⟩
      · cases hbody
      · rw [Attempt.run_bind_ok hrun']
        exact congrArg (fun u => Except.ok (ScriptContent.mk _ u)) (Except.ok.inj hbody)

/-- A cache whose roots are where they belong, with what stands under some names.  Nothing is said
about the rest. -/
structure Usable (c : Cache) (C M : Location) (K : Set String)
    (boxes : String → Boxes) (w : World) : Prop where
  housed : c.Housed C M w.files
  shelf : c.Shelf (owning C M 0) C M K boxes w.files
  scopes : w.scopes.Sound
  now : w.now.valid = true

/-- **A script that is compiled in a new scope answers what it says**, whatever is wrong with its
entries. -/
theorem Usable.content_compileInChild (h : c.Usable C M K boxes w)
    (hn : ∀ phase, s.classNameOf phase ∈ K) (hs : s.FitsIn c)
    (hhonest : ∀ phase, (boxes (s.classNameOf phase)).Honest used (c.key s phase))
    (hsource : Unmistaken used s) {parent : Nat} (hparent : w.scopes.isLive parent = true)
    (name : String) :
    (Job.run (c.compileInChild .steady s parent name).run w).1.map CompiledScript.content =
      s.content := by
  obtain ⟨sc, hsc⟩ := Option.isSome_iff_exists.mp hparent
  have hseat (phase : Phase) : Seat (owning C M w.scopes.slots.length) C M {s.classNameOf phase} :=
    (h.housed.seat _).mono (Set.subset_univ _)
  have hknows (phase : Phase) : c.Knows (owning C M w.scopes.slots.length) C M
      (exporting _ {s.classNameOf phase} fun _ => none) boxes (grownWorld w parent sc name) :=
    ⟨(h.shelf.rescope _).mono (Set.singleton_subset_iff.mpr (hn phase)),
      exports_grown h.scopes hsc rfl name, h.now⟩
  have hcontent := content_compileScript_of_honest hseat hs hknows hhonest hsource
  rw [run_compileInChild hsc]
  exact hcontent

/-- **Damage that can be seen is healed.**  Whatever stands in the files of a script's entries, if
an entry that looks fresh is a whole one, the script answers what it answers with an empty cache: no
damage is an error, and nothing damaged is loaded. -/
theorem compileScript_heals (h : c.Usable C M K boxes w) (hn : ∀ phase, s.classNameOf phase ∈ K)
    (hs : s.FitsIn c)
    (hdamage : ∀ phase, (boxes (s.classNameOf phase)).Honest {s} (c.key s phase))
    {w₀ : World} (h₀ : c.Fresh C M w₀) {parent parent₀ : Nat}
    (hparent : w.scopes.isLive parent = true) (hparent₀ : w₀.scopes.isLive parent₀ = true)
    (name name₀ : String) :
    (Job.run (c.compileInChild .steady s parent name).run w).1.map CompiledScript.content =
      (Job.run (c.compileInChild .steady s parent₀ name₀).run w₀).1.map CompiledScript.content := by
  have hsource : Unmistaken {s} s := fun other ho _ => congrArg Script.source ho
  have hempty : c.Sane C M {s} w₀.files w₀ := h₀.sane
  rw [h.content_compileInChild hn hs hdamage hsource hparent,
    hempty.content_compileInChild hs hsource hparent₀]

/-- Puts some bytes where the entry of a name would be. -/
def damage (c : Cache) (name : String) (classes metadata : ByteArray) : Attempt FileError Unit := do
  Attempt.change id (.makeDirectories (c.classesDir name))
  Attempt.change id (.writeFile (classFile (c.classesDir name) name) classes)
  Attempt.change id (.makeDirectories (c.metadataDir name))
  Attempt.change id (.writeFile (metadataFile (c.metadataDir name)) metadata)

/-- The bytes stand there then, and nothing else has changed. -/
theorem Usable.run_damage (h : c.Usable C M Set.univ boxes w) {name : String} (ht : c.Takes name)
    (classes metadata : ByteArray) :
    ∃ t, Job.run (c.damage name classes metadata).run w = (.ok (), { w with files := t }) ∧
      c.Usable C M Set.univ
        (Function.update boxes name ⟨some (some classes), some (some metadata)⟩)
        { w with files := t } := by
  have hseat := h.housed.seat 0
  have hn := Set.mem_univ name
  obtain ⟨t₁, h₁, hk₁, hs₁⟩ := h.shelf.makeClasses hseat hn ht
  obtain ⟨t₂, h₂, hk₂, hs₂⟩ := hs₁.writeClass hseat hn ht (by rw [Function.update_self]) classes
  obtain ⟨t₃, h₃, hk₃, hs₃⟩ := hs₂.makeMetadata hseat hn ht
  obtain ⟨t₄, h₄, hk₄, hs₄⟩ := hs₃.writeMetadata hseat hn ht (by rw [Function.update_self]) metadata
  have hop₁ : w.files.apply (.makeDirectories (c.classesDir name)) = (.ok (), t₁) := h₁
  have hop₂ : t₁.apply (.writeFile (classFile (c.classesDir name) name) classes) = (.ok (), t₂) :=
    apply_writeFile h₂
  have hop₃ : t₂.apply (.makeDirectories (c.metadataDir name)) = (.ok (), t₃) := h₃
  have hop₄ : t₃.apply (.writeFile (metadataFile (c.metadataDir name)) metadata) = (.ok (), t₄) :=
    apply_writeFile h₄
  have hrun : Job.run (c.damage name classes metadata).run w =
      (.ok (), { w with files := t₄ }) := by
    rw [damage, Attempt.run_bind_ok (Attempt.run_change hop₁),
      Attempt.run_bind_ok (Attempt.run_change (w := { w with files := t₁ }) hop₂),
      Attempt.run_bind_ok (Attempt.run_change (w := { w with files := t₂ }) hop₃),
      Attempt.run_change (w := { w with files := t₃ }) hop₄]
    rfl
  simp only [Function.update_self, Function.update_idem] at hs₄
  have hk := ((hk₁.trans hk₂).trans (hk₃.trans hk₄)).mono
    ((region_subset_owned Set.univ).trans owned_subset)
  exact ⟨t₄, hrun, h.housed.stays hk, hs₄, h.scopes, h.now⟩

/-- The theorem for a torn entry: half a brace of metadata beside a class file that says nothing. -/
theorem compileScript_heals_torn :
    (Job.run (small.compileInChild .steady smallScript 0 "healed").run
      (Job.run (small.damage (smallScript.classNameOf .body) "x".toUTF8 "\x7b".toUTF8).run
        smallWorld).2).1.map CompiledScript.content =
      (Job.run (small.compileInChild .steady smallScript 0 "first").run smallWorld).1.map
        CompiledScript.content := by
  have hempty : small.Usable ["c"] ["m"] Set.univ (fun _ => .none) smallWorld :=
    ⟨fresh_smallWorld.housed, fresh_smallWorld.housed.shelf fresh_smallWorld.classes
      fresh_smallWorld.metadata, fresh_smallWorld.scopes, fresh_smallWorld.now⟩
  have htakes := fitsIn_smallScript.names .body
  obtain ⟨t, hrun, husable⟩ := hempty.run_damage htakes "x".toUTF8 "\x7b".toUTF8
  rw [hrun]
  refine compileScript_heals husable (fun _ => Set.mem_univ _) fitsIn_smallScript (fun phase => ?_)
    fresh_smallWorld rfl rfl _ _
  · cases phase with
    | preamble =>
      rw [Function.update_of_ne smallScript.classNameOf_ne]
      exact ⟨rfl, fun h => by cases h⟩
    | body =>
      have hjudge : ∃ reason, (small.key smallScript .body).judge
          ⟨some (some "x".toUTF8), some (some "\x7b".toUTF8)⟩ = .ok (.stale reason) := by
        have htext : String.fromUTF8? "\x7b".toUTF8 = some "\x7b" := fromUTF8?_toUTF8 _
        have hread : Metadata.read "\x7b" = none := by decide +kernel
        rw [UnitKey.judge]
        simp only [Option.join_some, Option.isNone_some, Bool.false_eq_true, if_false, htext, hread]
        exact ⟨_, rfl⟩
      obtain ⟨reason, hreason⟩ := hjudge
      rw [Function.update_self]
      exact ⟨by rw [hreason]; rfl, fun h => by rw [hreason] at h; cases h⟩

end Cache

end ScriptPlugins
