import ScriptPlugins.Proofs.Cache.Loading

/-!
# Phases — compiling a script as a function of what it finds

What a script makes of its entries, its scope and the counts is a function of what stands there when
it begins, of its compiler, and of the times at which it compiles.  The jobs follow this function
whatever the others do.
-/

namespace ScriptPlugins

open Owning

/-- What a script finds and leaves: the entries of its names, the classes that its scope exports
under them, and what was counted. -/
structure Stage where
  made : String → Option Made
  exports : String → Option CompiledClass
  tally : Tally

/-- The two names of a script tell its phases apart. -/
theorem Script.classNameOf_ne (s : Script) : s.classNameOf .preamble ≠ s.classNameOf .body := by
  intro h
  have htext := congrArg (fun t : String => t.toList.head?) h
  simp only [classNameOf, preambleClassName, className, String.toList_append] at htext
  revert htext
  simp

namespace Cache

variable (c : Cache) (compiler : Compiler) (s : Script) (scope : Nat)

/-! ## 1. What becomes of a stage -/

/-- What becomes of a stage when a phase is compiled at some time. -/
def phaseOn (now : Instant) (phase : Phase) (g : Stage) :
    Except BuildError (LoadedUnit × Bool) × Stage :=
  let name := s.classNameOf phase
  match s.entryFor compiler phase now (g.made name) with
  | .error e => (.error e, { g with made := Function.update g.made name none })
  | .ok m =>
    let compiled := (s.fresh? phase (g.made name)).isNone
    (.ok (m.unit scope, compiled), {
      made := Function.update g.made name (some m)
      exports := Function.update g.exports name (some m.compiled)
      tally := g.tally +
        ({c.classesDir name}, {c.classesDir name}, if compiled then 0 else 1) })

/-- What becomes of a stage when a preamble is compiled, if there is one. -/
def preambleOn (now : Instant) (g : Stage) :
    Except BuildError (Option LoadedUnit × List Phase) × Stage :=
  if s.hasPreamble then
    match c.phaseOn compiler s scope now .preamble g with
    | (.error e, g) => (.error e, g)
    | (.ok (unit, compiled), g) => (.ok (some unit, if compiled then [.preamble] else []), g)
  else (.ok (none, []), g)

/-- What becomes of a stage when both phases are compiled. -/
def scriptOn (now : Phase → Instant) (g : Stage) : Except BuildError CompiledScript × Stage :=
  match c.preambleOn compiler s scope (now .preamble) g with
  | (.error e, g) => (.error e, g)
  | (.ok (preamble, recompiled), g) =>
    match c.phaseOn compiler s scope (now .body) .body g with
    | (.error e, g) => (.error e, g)
    | (.ok (body, compiled), g) =>
      (.ok ⟨preamble, body, recompiled ++ if compiled then [.body] else []⟩, g)

/-! ## 2. The jobs -/

variable {c compiler s} {o : Owning} {C M : Location} {K : Set String} {w : World} {phase : Phase}
  {g : Stage}

/-- What stands where a script begins, as far as it is known. -/
abbrev On (c : Cache) (o : Owning) (C M : Location) (K : Set String) (g : Stage) (w : World) :
    Prop :=
  c.Stands o C M K g.made g.exports w

/-- An entry that a phase asks for serves it. -/
theorem serves_of_entryFor {now : Instant} {entry : Option Made} {m : Made}
    (h : s.entryFor compiler phase now entry = .ok m) : m.serves s phase = true := by
  rcases Script.entryFor_eq_ok h with ⟨-, hserves⟩ | ⟨-, steps, -, rfl⟩
  · exact hserves
  · simp [Made.serves]

theorem phaseOn_error {now : Instant} {err : BuildError}
    (h : s.entryFor compiler phase now (g.made (s.classNameOf phase)) = .error err) :
    c.phaseOn compiler s scope now phase g =
      (.error err, { g with made := Function.update g.made (s.classNameOf phase) none }) := by
  rw [phaseOn, h]

theorem phaseOn_ok {now : Instant} {m : Made} {compiled : Bool}
    (h : s.entryFor compiler phase now (g.made (s.classNameOf phase)) = .ok m)
    (hc : (s.fresh? phase (g.made (s.classNameOf phase))).isNone = compiled) :
    c.phaseOn compiler s scope now phase g =
      (.ok (m.unit scope, compiled),
        ⟨Function.update g.made (s.classNameOf phase) (some m),
          Function.update g.exports (s.classNameOf phase) (some m.compiled),
          g.tally + ({c.classesDir (s.classNameOf phase)}, {c.classesDir (s.classNameOf phase)},
            if compiled then 0 else 1)⟩) := by
  rw [phaseOn, h]
  simp only [hc]

/-- A phase leaves all other names alone. -/
theorem phaseOn_others (c : Cache) (compiler : Compiler) (s : Script) (scope : Nat) (now : Instant)
    (phase : Phase) (g : Stage) {n : String} (hn : n ≠ s.classNameOf phase) :
    (c.phaseOn compiler s scope now phase g).2.made n = g.made n ∧
      (c.phaseOn compiler s scope now phase g).2.exports n = g.exports n := by
  cases hfor : s.entryFor compiler phase now (g.made (s.classNameOf phase)) with
  | error err =>
    rw [phaseOn_error scope hfor]
    exact ⟨Function.update_of_ne hn .., rfl⟩
  | ok m =>
    rw [phaseOn_ok scope hfor rfl]
    exact ⟨Function.update_of_ne hn .., Function.update_of_ne hn ..⟩

/-- So does a preamble. -/
theorem preambleOn_others {now : Instant} {r : Except BuildError (Option LoadedUnit × List Phase)}
    {g' : Stage} (h : c.preambleOn compiler s scope now g = (r, g')) {n : String}
    (hn : n ≠ s.classNameOf .preamble) : g'.made n = g.made n ∧ g'.exports n = g.exports n := by
  rw [preambleOn] at h
  split at h
  · have hothers := phaseOn_others c compiler s scope now .preamble g hn
    rcases hphase : c.phaseOn compiler s scope now .preamble g with ⟨_ | _, g₁⟩ <;>
    · rw [hphase] at h hothers
      cases h
      exact hothers
  · cases h
    exact ⟨rfl, rfl⟩

/-- What is left of a phase once its entry is fresh: it is registered and loaded. -/
def loadPhase (c : Cache) (s : Script) (scope : Nat) (phase : Phase) (compiled : Bool) :
    Attempt BuildError (LoadedUnit × Bool) := do
  Attempt.perform (.register (c.classesDir (s.classNameOf phase)))
  let unit ← Attempt.adapt (loadFailure s.id) ((c.key s phase).load scope)
  unless compiled do Attempt.adapt .scope (Attempt.reuseScope scope)
  return (unit, compiled)

theorem compilePhase_eq (c : Cache) (compiler : Compiler) (s : Script) (scope : Nat)
    (phase : Phase) : c.compilePhase compiler s scope phase =
      c.refresh compiler s phase >>= c.loadPhase s scope phase := rfl

/-- A unit is loaded from its entry, which was registered before. -/
theorem ends_loadPhase (hseat : Seat o C M K) (hn : s.classNameOf phase ∈ K)
    (ht : c.Takes (s.classNameOf phase)) {made : String → Option Made}
    {exports : String → Option CompiledClass} (h : c.Stands o C M K made exports w) {m : Made}
    (hm : made (s.classNameOf phase) = some m) (hserves : m.serves s phase = true)
    (hx : exports (s.classNameOf phase) = none) (compiled : Bool) {e : Tally} :
    o.Answers K (c.loadPhase s o.scope phase compiled) e w
      fun r e' w' => r = (m.unit o.scope, compiled) ∧
        e' = e + ({c.classesDir (s.classNameOf phase)}, {c.classesDir (s.classNameOf phase)},
          if compiled then 0 else 1) ∧
        c.Stands o C M K made
          (Function.update exports (s.classNameOf phase) (some m.compiled)) w' := by
  refine (answers_register hseat h _).bind fun _ e₁ w ⟨he₁, h⟩ => ?_
  have hload := answers_load (e := e₁) hseat h hn ht hm hserves hx
  refine hload.adapt.bind fun unit e₂ w ⟨hu, he₂, h⟩ => ?_
  subst hu
  cases compiled with
  | true =>
    refine Answers.pure fun w' hw => ⟨rfl, ?_, stable_records hseat _ _ h hw⟩
    rw [he₂, he₁, add_assoc]
    simp
  | false =>
    refine (answers_reuse hseat h).adapt.bind fun _ e₃ w ⟨he₃, h⟩ =>
      Answers.pure fun w' hw => ⟨rfl, ?_, stable_records hseat _ _ h hw⟩
    rw [he₃, he₂, he₁, add_assoc, add_assoc]
    simp

variable (compiler) in
/-- **A phase is compiled and loaded as its stage tells.** -/
theorem ends_compilePhase (hseat : Seat o C M K) (hn : s.classNameOf phase ∈ K) (hs : s.FitsIn c)
    (h : c.On o C M K g w) (hx : g.exports (s.classNameOf phase) = none) :
    o.Ends K (fun r e' w' => ∃ now, now.valid = true ∧ ∃ g',
        c.phaseOn compiler s o.scope now phase g = (r, g') ∧ e' = g'.tally ∧ c.On o C M K g' w')
      (c.compilePhase compiler s o.scope phase).run g.tally w := by
  rw [compilePhase_eq]
  refine Ends.bind (ends_refresh compiler hseat hn (hs.names phase) hs.lines h) fun r e₁ w hr => ?_
  obtain ⟨he₁, now, hnow, hentry⟩ := hr w (.refl ..)
  subst he₁
  cases hfor : s.entryFor compiler phase now (g.made (s.classNameOf phase)) with
  | error err =>
    rw [hfor] at hentry
    obtain ⟨rfl, h⟩ := hentry
    exact fun w' hw => ⟨now, hnow, _, phaseOn_error o.scope hfor, rfl,
      stable_records hseat _ _ h hw⟩
  | ok m =>
    rw [hfor] at hentry
    obtain ⟨rfl, h⟩ := hentry
    refine Ends.imp (ends_loadPhase hseat hn (hs.names phase) h (Function.update_self ..)
      (serves_of_entryFor hfor) hx _) ?_
    rintro r e' w' ⟨_, rfl, rfl, rfl, h'⟩
    exact ⟨now, hnow, _, phaseOn_ok o.scope hfor rfl, rfl, h'⟩

variable (compiler) in
theorem ends_compilePreamble (hseat : Seat o C M K) (hn : s.classNameOf .preamble ∈ K)
    (hs : s.FitsIn c) (h : c.On o C M K g w) (hx : g.exports (s.classNameOf .preamble) = none) :
    o.Ends K (fun r e' w' => ∃ now, now.valid = true ∧ ∃ g',
        c.preambleOn compiler s o.scope now g = (r, g') ∧ e' = g'.tally ∧ c.On o C M K g' w')
      (c.compilePreamble compiler s o.scope).run g.tally w := by
  rw [compilePreamble]
  by_cases hp : s.hasPreamble
  · rw [if_pos hp]
    refine Ends.bind (ends_compilePhase compiler hseat hn hs h hx) fun r e₁ w₁ hr => ?_
    rcases r with err | ⟨unit, compiled⟩
    · intro w' hw
      obtain ⟨now, hnow, g', hg', he, h'⟩ := hr w' hw
      exact ⟨now, hnow, g', by rw [preambleOn, if_pos hp, hg'], he, h'⟩
    · intro w' hw
      obtain ⟨now, hnow, g', hg', he, h'⟩ := hr w' hw
      exact ⟨now, hnow, g', by rw [preambleOn, if_pos hp, hg'], he, h'⟩
  · rw [if_neg hp]
    exact fun w' hw => ⟨w'.now, (stable_records hseat _ _ h hw).knows.now, g,
      by rw [preambleOn, if_neg hp], rfl, stable_records hseat _ _ h hw⟩

/-- The times of the two phases. -/
def timesOf (first later : Instant) : Phase → Instant
  | .preamble => first
  | .body => later

theorem timesOf_valid {first later : Instant} (hf : first.valid = true) (hl : later.valid = true) :
    ∀ phase, (timesOf first later phase).valid = true
  | .preamble => hf
  | .body => hl

variable (compiler) in
/-- **A script is compiled and loaded as its stage tells**, at some times, whatever the others
do. -/
theorem ends_compileScript (hseat : Seat o C M K) (hn : ∀ phase, s.classNameOf phase ∈ K)
    (hs : s.FitsIn c) (h : c.On o C M K g w)
    (hx : ∀ phase, g.exports (s.classNameOf phase) = none) :
    o.Ends K (fun r e' w' => ∃ now : Phase → Instant, (∀ phase, (now phase).valid = true) ∧ ∃ g',
        c.scriptOn compiler s o.scope now g = (r, g') ∧ e' = g'.tally ∧ c.On o C M K g' w')
      (c.compileScript compiler s o.scope).run g.tally w := by
  rw [compileScript]
  refine Ends.bind (ends_compilePreamble compiler hseat (hn _) hs h (hx _))
    fun r e₁ w₁ hr => ?_
  rcases r with err | ⟨preamble, recompiled⟩
  · intro w' hw
    obtain ⟨now, hnow, g', hg', he, h'⟩ := hr w' hw
    exact ⟨fun _ => now, fun _ => hnow, g', by rw [scriptOn, hg'], he, h'⟩
  · obtain ⟨now, hnow, g₁, hg₁, rfl, h₁⟩ := hr w₁ (.refl ..)
    have hx₁ := (preambleOn_others o.scope hg₁ s.classNameOf_ne.symm).2.trans (hx .body)
    refine Ends.bind (ends_compilePhase compiler hseat (hn _) hs h₁ hx₁)
      fun r e₂ w₂ hr => ?_
    rcases r with err | ⟨body, compiled⟩
    · intro w' hw
      obtain ⟨later, hl, g', hg', he, h'⟩ := hr w' hw
      exact ⟨timesOf now later, timesOf_valid hnow hl, g',
        by simp only [scriptOn, timesOf, hg₁, hg'], he, h'⟩
    · intro w' hw
      obtain ⟨later, hl, g', hg', he, h'⟩ := hr w' hw
      exact ⟨timesOf now later, timesOf_valid hnow hl, g',
        by simp only [scriptOn, timesOf, hg₁, hg'], he, h'⟩

end Cache

end ScriptPlugins
