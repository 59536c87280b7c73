import ScriptPlugins.Proofs.Cache.Contents

/-!
# Stages — what a script loads, and what it leaves in the cache

A script loads none, one or both of its entries.  Those that it has loaded are exported and counted,
and they are in the cache when it ends.
-/

namespace ScriptPlugins

/-- An entry that stands for a phase of a script. -/
structure Made.Suits (m : Made) (s : Script) (phase : Phase) : Prop where
  name : m.name = s.classNameOf phase
  serves : m.serves s phase = true

/-- Both entries of a script have names of their own. -/
theorem Made.nodup_of_suits {s : Script} {pre : Option Made} {main : Made}
    (hpre : ∀ m ∈ pre, m.Suits s .preamble) (hmain : main.Suits s .body) :
    ((pre.toList ++ [main]).map Made.name).Nodup := by
  cases pre with
  | none => simp
  | some m =>
    have hne : m.name ≠ main.name := by
      rw [(hpre m rfl).name, hmain.name]
      exact s.classNameOf_ne
    simp [hne]

/-- What a script has loaded when a stage has become another one. -/
structure Cache.Loads (c : Cache) (g g' : Stage) (ms : List Made) : Prop where
  made : ∀ m ∈ ms, g'.made m.name = some m
  exports : ∀ n, g'.exports n = ((ms.find? (·.name = n)).map Made.compiled).or (g.exports n)
  registered : g'.tally.1 = g.tally.1 + (ms.map fun m => c.classesDir m.name : List Path)

namespace Cache

variable {c : Cache} (compiler : Compiler) {s : Script} (scope : Nat) (phase : Phase)
  {now : Instant} {g g' g'' : Stage} {n : String} {used : Set Script}

theorem Loads.refl (c : Cache) (g : Stage) : c.Loads g g [] :=
  ⟨by simp, fun _ => rfl, by simp⟩

/-- What a script has loaded is exported, if nothing else of that name was loaded. -/
theorem Loads.exports_of_mem {ms : List Made} (h : c.Loads g g' ms) (hn : (ms.map Made.name).Nodup)
    {m : Made} (hm : m ∈ ms) : g'.exports m.name = some m.compiled := by
  have hfind : ms.find? (·.name = m.name) = some m := by
    obtain ⟨m', hm'⟩ := Option.isSome_iff_exists.mp
      (List.find?_isSome.mpr ⟨m, hm, by simp⟩ : (ms.find? (·.name = m.name)).isSome)
    have hname : m'.name = m.name := by simpa using List.find?_some hm'
    rw [hm', List.inj_on_of_nodup_map hn (List.mem_of_find?_eq_some hm') hm hname]
  rw [h.exports, hfind]
  rfl

/-- What is exported anew has been loaded. -/
theorem Loads.exists_of_exports {ms : List Made} (h : c.Loads g g' ms) (hg : g.exports n = none)
    (hn : g'.exports n ≠ none) : ∃ m ∈ ms, m.name = n := by
  rw [h.exports, hg, Option.or_none] at hn
  cases hfind : ms.find? (·.name = n) with
  | none => rw [hfind] at hn; exact absurd rfl hn
  | some m => exact ⟨m, List.mem_of_find?_eq_some hfind, by simpa using List.find?_some hfind⟩

/-! ## 1. One phase -/

variable {compiler scope phase} in
/-- An entry that a phase asks for was there, or is compiled from its script. -/
theorem madeFrom_entryFor (h : MadeFrom used g.made) (hs : s.FitsIn c) (hmem : s ∈ used)
    (hnow : now.valid = true) {m : Made}
    (hfor : s.entryFor compiler phase now (g.made (s.classNameOf phase)) = .ok m) :
    m.name = s.classNameOf phase ∧ m.Sound ∧ m.script ∈ used := by
  rcases Script.entryFor_eq_ok hfor with ⟨hm, -⟩ | ⟨-, steps, hplan, rfl⟩
  · exact h _ m hm
  · exact ⟨rfl, Script.sound_of_plan hs.lines hplan hnow, hmem⟩

theorem madeFrom_phaseOn (h : MadeFrom used g.made) (hs : s.FitsIn c) (hmem : s ∈ used)
    (hnow : now.valid = true) :
    MadeFrom used (c.phaseOn compiler s scope now phase g).2.made := by
  intro n m hm
  by_cases hn : n = s.classNameOf phase
  · subst hn
    cases hfor : s.entryFor compiler phase now (g.made (s.classNameOf phase)) with
    | error err =>
      rw [phaseOn_error scope hfor] at hm
      simp only [Function.update_self] at hm
      cases hm
    | ok m' =>
      rw [phaseOn_ok scope hfor rfl] at hm
      simp only [Function.update_self, Option.some.injEq] at hm
      exact hm ▸ madeFrom_entryFor h hs hmem hnow hfor
  · rw [(phaseOn_others c compiler s scope now phase g hn).1] at hm
    exact h n m hm

/-- A phase that answers has loaded its entry; one that fails has loaded nothing. -/
theorem loads_phaseOn (h : MadeFrom used g.made) (hs : s.FitsIn c) (hmem : s ∈ used)
    (hnow : now.valid = true) :
    (∃ err g', c.phaseOn compiler s scope now phase g = (.error err, g') ∧ c.Loads g g' []) ∨
      ∃ m compiled g', c.phaseOn compiler s scope now phase g = (.ok (m.unit scope, compiled), g') ∧
        m.Suits s phase ∧ c.Loads g g' [m] := by
  cases hfor : s.entryFor compiler phase now (g.made (s.classNameOf phase)) with
  | error err =>
    exact .inl ⟨err, _, phaseOn_error scope hfor, by simp, fun _ => rfl, by simp⟩
  | ok m =>
    obtain ⟨hname, -, -⟩ := madeFrom_entryFor h hs hmem hnow hfor
    refine .inr ⟨m, _, _, phaseOn_ok scope hfor rfl, ⟨hname, serves_of_entryFor hfor⟩,
      fun m' hm' => ?_, fun n => ?_, ?_⟩
    · rw [List.mem_singleton.mp hm', hname]
      exact Function.update_self ..
    · by_cases hn : m.name = n
      · subst hn
        simp [hname]
      · have hn' : n ≠ s.classNameOf phase := fun he => hn (hname.trans he.symm)
        simp [hn, Function.update_of_ne hn']
    · simp [hname]

/-! ## 2. Both phases -/

/-- What a script loads in turn. -/
theorem Loads.append {ms : List Made} {m : Made} (h : c.Loads g g' ms) (h' : c.Loads g' g'' [m])
    (hother : ∀ m' ∈ ms, m'.name ≠ m.name ∧ g''.made m'.name = g'.made m'.name) :
    c.Loads g g'' (ms ++ [m]) where
  made m' hm' := by
    rcases List.mem_append.mp hm' with hm' | hm'
    · exact (hother m' hm').2.trans (h.made m' hm')
    · exact h'.made m' hm'
  exports n := by
    rw [h'.exports, h.exports, List.find?_append, ← Option.or_assoc]
    congr 1
    cases hfind : ms.find? (·.name = n) with
    | none => simp
    | some m' =>
      have hm' := List.mem_of_find?_eq_some hfind
      have hname : m'.name = n := by simpa using List.find?_some hfind
      have hne : ¬m.name = n := fun he => (hother m' hm').1 (hname.trans he.symm)
      simp [hne]
  registered := by
    rw [h'.registered, h.registered, List.map_append, ← Multiset.coe_add, add_assoc]

/-- A preamble that is there loads its entry, or fails. -/
theorem loads_preambleOn (h : MadeFrom used g.made) (hs : s.FitsIn c) (hmem : s ∈ used)
    (hnow : now.valid = true) :
    MadeFrom used (c.preambleOn compiler s scope now g).2.made ∧
      ((∃ err g', c.preambleOn compiler s scope now g = (.error err, g') ∧ c.Loads g g' []) ∨
        ∃ (pre : Option Made) (recompiled : List Phase) (g' : Stage),
          c.preambleOn compiler s scope now g = (.ok (pre.map (·.unit scope), recompiled), g') ∧
            (∀ m ∈ pre, m.Suits s .preamble) ∧ pre.isSome = s.hasPreamble ∧
            c.Loads g g' pre.toList) := by
  rw [preambleOn]
  split
  next hp =>
    have hmade := madeFrom_phaseOn compiler scope .preamble h hs hmem hnow
    rcases loads_phaseOn compiler scope .preamble h hs hmem hnow
      with ⟨err, g', hr, hl⟩ | ⟨m, compiled, g', hr, hsuits, hl⟩ <;> rw [hr] at hmade ⊢
    · exact ⟨hmade, .inl ⟨err, g', rfl, hl⟩⟩
    · exact ⟨hmade, .inr ⟨some m, _, g', rfl, by simpa using hsuits, hp.symm, hl⟩⟩
  next hp =>
    exact ⟨h, .inr ⟨none, [], g, rfl, by simp, by simpa using hp, .refl c g⟩⟩

/-- **What a script loads**: its preamble if it has one, and its body, unless something fails
before. Its result names what it has loaded. -/
theorem loads_scriptOn (h : MadeFrom used g.made) (hs : s.FitsIn c) (hmem : s ∈ used)
    {now : Phase → Instant} (hnow : ∀ phase, (now phase).valid = true) :
    MadeFrom used (c.scriptOn compiler s scope now g).2.made ∧
      ∃ pre : Option Made, (∀ m ∈ pre, m.Suits s .preamble) ∧
        ((∃ err g', c.scriptOn compiler s scope now g = (.error err, g') ∧
          c.Loads g g' pre.toList) ∨ ∃ (m : Made) (recompiled : List Phase) (g' : Stage),
            c.scriptOn compiler s scope now g =
              (.ok ⟨pre.map (·.unit scope), m.unit scope, recompiled⟩, g') ∧
            m.Suits s .body ∧ pre.isSome = s.hasPreamble ∧
            c.Loads g g' (pre.toList ++ [m])) := by
  rw [scriptOn]
  obtain ⟨hmade, ⟨err, g₁, hr, hl⟩ | ⟨pre, recompiled, g₁, hr, hpre, hhas, hl⟩⟩ :=
    loads_preambleOn compiler scope h hs hmem (hnow .preamble) <;>
    rw [hr] at hmade ⊢
  · exact ⟨hmade, none, by simp, .inl ⟨err, g₁, rfl, hl⟩⟩
  · have hmade₂ := madeFrom_phaseOn compiler scope .body hmade hs hmem (hnow .body)
    -- The body has a name of its own, so what was loaded of the preamble stays loaded.
    have hother {m' : Made} (hm' : m' ∈ pre.toList) {g₂ : Stage}
        {r : Except BuildError (LoadedUnit × Bool)}
        (hr₂ : c.phaseOn compiler s scope (now .body) .body g₁ = (r, g₂)) :
        m'.name ≠ s.classNameOf .body ∧ g₂.made m'.name = g₁.made m'.name := by
      have hname := (hpre m' (Option.mem_toList.mp hm')).name
      have hne : m'.name ≠ s.classNameOf .body := hname ▸ s.classNameOf_ne
      have hsame : (c.phaseOn compiler s scope (now .body) .body g₁).2.made m'.name =
          g₁.made m'.name := (phaseOn_others c compiler s scope _ .body g₁ hne).1
      rw [hr₂] at hsame
      exact ⟨hne, hsame⟩
    rcases loads_phaseOn compiler scope .body hmade hs hmem
      (hnow .body) with ⟨err, g₂, hr₂, hl₂⟩ | ⟨m, compiled, g₂, hr₂, hsuits, hl₂⟩
    · simp only [hr₂] at hmade₂ ⊢
      refine ⟨hmade₂, pre, hpre, .inl ⟨err, g₂, rfl, fun m' hm' => ?_, fun n => ?_, ?_⟩⟩
      · exact (hother hm' hr₂).2.trans (hl.made m' hm')
      · exact (hl₂.exports n).trans (hl.exports n)
      · rw [hl₂.registered, hl.registered]
        simp
    · simp only [hr₂] at hmade₂ ⊢
      exact ⟨hmade₂, pre, hpre, .inr ⟨m, _, g₂, rfl, hsuits, hhas, hl.append hl₂ fun m' hm' =>
        hsuits.name ▸ hother hm' hr₂⟩⟩

/-- A script whose phases compile is loaded, whatever entries there are. -/
theorem scriptOn_of_plan {compiler : Compiler}
    (hplan : ∀ phase, (s.plan compiler phase).isOk = true) (now : Phase → Instant) (g : Stage) :
    ∃ r g', c.scriptOn compiler s scope now g = (.ok r, g') := by
  have hphase (now : Instant) (phase : Phase) (g : Stage) :
      ∃ r g', c.phaseOn compiler s scope now phase g = (.ok r, g') := by
    cases hfor : s.entryFor compiler phase now (g.made (s.classNameOf phase)) with
    | ok m => exact ⟨_, _, phaseOn_ok scope hfor rfl⟩
    | error err =>
      have hok := hplan phase
      rw [Script.entryFor_eq_error hfor] at hok
      cases hok
  have hpre : ∃ r g', c.preambleOn compiler s scope (now .preamble) g = (.ok r, g') := by
    rw [preambleOn]
    split
    · obtain ⟨r, g', hr⟩ := hphase (now .preamble) .preamble g
      rw [hr]
      exact ⟨_, _, rfl⟩
    · exact ⟨_, _, rfl⟩
  obtain ⟨r, g₁, hr⟩ := hpre
  obtain ⟨r', g₂, hr'⟩ := hphase (now .body) .body g₁
  rw [scriptOn, hr]
  simp only [hr']
  exact ⟨_, _, rfl⟩

/-- The entries that a script loads are its own, and each of them is loaded once. -/
theorem exists_loads (h : MadeFrom used g.made) (hs : s.FitsIn c) (hmem : s ∈ used)
    {now : Phase → Instant} (hnow : ∀ phase, (now phase).valid = true) :
    ∃ ms, c.Loads g (c.scriptOn compiler s scope now g).2 ms ∧ (ms.map Made.name).Nodup ∧
      ∀ m ∈ ms, ∃ phase, m.name = s.classNameOf phase := by
  obtain ⟨-, pre, hpre, ⟨err, g', hr, hl⟩ | ⟨m, recompiled, g', hr, hsuits, -, hl⟩⟩ :=
    loads_scriptOn compiler scope h hs hmem hnow <;> rw [hr]
  · exact ⟨_, hl, by cases pre <;> simp, fun m hm => ⟨_, (hpre m (Option.mem_toList.mp hm)).name⟩⟩
  · refine ⟨_, hl, Made.nodup_of_suits hpre hsuits, fun m' hm' => ?_⟩
    rcases List.mem_append.mp hm' with hm' | hm'
    · exact ⟨_, (hpre m' (Option.mem_toList.mp hm')).name⟩
    · exact ⟨.body, List.mem_singleton.mp hm' ▸ hsuits.name⟩

end Cache

end ScriptPlugins
