import ScriptPlugins.Proofs.Cache.Phases

/-!
# Timeless — what does not depend on when a script was compiled

An entry tells when it was made, and nothing asks for it.  So what becomes of a script is the same
at all times, but for the times in its entries.
-/

namespace ScriptPlugins

/-- What an entry was made from, whenever that was. -/
def Made.origin (m : Made) : Script × Phase × List Step := (m.script, m.phase, m.steps)

/-- Stages that differ in nothing but the times of their entries. -/
structure Stage.Alike (g g' : Stage) : Prop where
  made : ∀ n, (g.made n).map Made.origin = (g'.made n).map Made.origin
  exports : g.exports = g'.exports
  tally : g.tally = g'.tally

theorem Stage.Alike.refl (g : Stage) : g.Alike g := ⟨fun _ => rfl, rfl, rfl⟩

theorem Made.eq_of_origin {m m' : Made} (h : m.origin = m'.origin) :
    m = ⟨m'.script, m'.phase, m'.steps, m.createdAt⟩ := by
  obtain ⟨script, phase, steps, createdAt⟩ := m
  cases h
  rfl

theorem Made.serves_origin {m m' : Made} (h : m.origin = m'.origin) (s : Script) (phase : Phase) :
    m.serves s phase = m'.serves s phase := by rw [m.eq_of_origin h]; rfl

theorem Made.unit_origin {m m' : Made} (h : m.origin = m'.origin) (scope : Nat) :
    m.unit scope = m'.unit scope := by rw [m.eq_of_origin h]; rfl

theorem Made.compiled_origin {m m' : Made} (h : m.origin = m'.origin) :
    m.compiled = m'.compiled := by
  rw [m.eq_of_origin h]; rfl

variable {entry entry' : Option Made}

namespace Script

variable (s : Script) (phase : Phase) (compiler : Compiler)

theorem fresh?_origin (h : entry.map Made.origin = entry'.map Made.origin) :
    (s.fresh? phase entry).map Made.origin = (s.fresh? phase entry').map Made.origin := by
  cases entry <;> cases entry'
  · rfl
  · cases h
  · cases h
  next m m' =>
    have hserves := Made.serves_origin (Option.some.inj h) s phase
    rw [fresh?, fresh?, Option.filter_some, Option.filter_some, hserves]
    split
    · exact h
    · rfl

theorem entryFor_origin (h : entry.map Made.origin = entry'.map Made.origin)
    (now now' : Instant) :
    (s.entryFor compiler phase now entry).map Made.origin =
      (s.entryFor compiler phase now' entry').map Made.origin := by
  have hfresh : (s.fresh? phase entry).map Made.origin = (s.fresh? phase entry').map Made.origin :=
    s.fresh?_origin phase h
  rw [entryFor, entryFor]
  cases h₁ : s.fresh? phase entry <;> cases h₂ : s.fresh? phase entry' <;> rw [h₁, h₂] at hfresh
  · cases s.plan compiler phase <;> rfl
  · cases hfresh
  · cases hfresh
  · exact congrArg Except.ok (Option.some.inj hfresh)

end Script

namespace Cache

variable (c : Cache) (compiler : Compiler) (s : Script) (scope : Nat) (phase : Phase) {g g' : Stage}

variable {c compiler s scope phase} in
theorem origin_update {made made' : String → Option Made}
    (h : ∀ n, (made n).map Made.origin = (made' n).map Made.origin) (name : String)
    (he : entry.map Made.origin = entry'.map Made.origin) (n : String) :
    (Function.update made name entry n).map Made.origin =
      (Function.update made' name entry' n).map Made.origin := by
  by_cases hn : n = name
  · rw [hn, Function.update_self, Function.update_self, he]
  · rw [Function.update_of_ne hn, Function.update_of_ne hn, h]

/-- A phase comes to the same at all times. -/
theorem phaseOn_alike (h : g.Alike g') (now now' : Instant) :
    (c.phaseOn compiler s scope now phase g).1 = (c.phaseOn compiler s scope now' phase g').1 ∧
      (c.phaseOn compiler s scope now phase g).2.Alike
        (c.phaseOn compiler s scope now' phase g').2 := by
  have hfor : (s.entryFor compiler phase now (g.made (s.classNameOf phase))).map Made.origin =
      (s.entryFor compiler phase now' (g'.made (s.classNameOf phase))).map Made.origin :=
    s.entryFor_origin phase compiler (h.made _) now now'
  have hfresh : (s.fresh? phase (g.made (s.classNameOf phase))).isNone =
      (s.fresh? phase (g'.made (s.classNameOf phase))).isNone := by
    have hmap := congrArg Option.isNone (s.fresh?_origin phase
      (h.made (s.classNameOf phase)))
    rwa [Option.isNone_map, Option.isNone_map] at hmap
  cases h₁ : s.entryFor compiler phase now (g.made (s.classNameOf phase)) <;>
    cases h₂ : s.entryFor compiler phase now' (g'.made (s.classNameOf phase)) <;>
    rw [h₁, h₂] at hfor
  next err err' =>
    rw [phaseOn_error scope h₁, phaseOn_error scope h₂]
    exact ⟨congrArg Except.error (Except.error.inj hfor), origin_update h.made _ rfl,
      h.exports, h.tally⟩
  · cases hfor
  · cases hfor
  next m m' =>
    have horigin : m.origin = m'.origin := Except.ok.inj hfor
    rw [phaseOn_ok scope h₁ rfl, phaseOn_ok scope h₂ rfl, hfresh, Made.unit_origin horigin,
      Made.compiled_origin horigin, h.exports, h.tally]
    exact ⟨rfl, origin_update h.made _ (congrArg some horigin), rfl, rfl⟩

theorem preambleOn_alike (h : g.Alike g') (now now' : Instant) :
    (c.preambleOn compiler s scope now g).1 = (c.preambleOn compiler s scope now' g').1 ∧
      (c.preambleOn compiler s scope now g).2.Alike (c.preambleOn compiler s scope now' g').2 := by
  rw [preambleOn, preambleOn]
  split
  · obtain ⟨hr, hg⟩ := c.phaseOn_alike compiler s scope .preamble h now now'
    rcases h₁ : c.phaseOn compiler s scope now .preamble g with ⟨r, g₁⟩
    rcases h₂ : c.phaseOn compiler s scope now' .preamble g' with ⟨r', g₂⟩
    rw [h₁, h₂] at hr hg
    cases hr
    cases r <;> exact ⟨rfl, hg⟩
  · exact ⟨rfl, h⟩

/-- **A script comes to the same at all times.** -/
theorem scriptOn_alike (h : g.Alike g') (now now' : Phase → Instant) :
    (c.scriptOn compiler s scope now g).1 = (c.scriptOn compiler s scope now' g').1 ∧
      (c.scriptOn compiler s scope now g).2.Alike (c.scriptOn compiler s scope now' g').2 := by
  obtain ⟨hr, hg⟩ := c.preambleOn_alike compiler s scope h (now .preamble) (now' .preamble)
  rw [scriptOn, scriptOn]
  rcases h₁ : c.preambleOn compiler s scope (now .preamble) g with ⟨r, g₁⟩
  rcases h₂ : c.preambleOn compiler s scope (now' .preamble) g' with ⟨r', g₂⟩
  rw [h₁, h₂] at hr hg
  cases hr
  cases r with
  | error err => exact ⟨rfl, hg⟩
  | ok a =>
    obtain ⟨preamble, recompiled⟩ := a
    obtain ⟨hr', hg'⟩ := c.phaseOn_alike compiler s scope .body hg (now .body) (now' .body)
    simp only
    rcases h₃ : c.phaseOn compiler s scope (now .body) .body g₁ with ⟨r, g₃⟩
    rcases h₄ : c.phaseOn compiler s scope (now' .body) .body g₂ with ⟨r', g₄⟩
    rw [h₃, h₄] at hr' hg'
    cases hr'
    cases r <;> exact ⟨rfl, hg'⟩

end Cache

end ScriptPlugins
