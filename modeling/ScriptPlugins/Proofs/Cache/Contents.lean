import Mathlib.Data.Set.Function
import ScriptPlugins.Proofs.Cache.Phases

/-!
# Contents — what is loaded is what the script says

An entry that serves a phase has the digest of the script.  If no two sources share a digest, it was
made from the very source, so loading it gives what compiling anew would give.
-/

namespace ScriptPlugins

/-- What a unit tells, whichever scope it was loaded through. -/
structure UnitContent where
  compiled : CompiledClass
  contentHash : String
  runDoesSomething : Bool
  hasMethods : Bool
  notes : ClassNotes
  deriving DecidableEq, Repr

def LoadedUnit.content (u : LoadedUnit) : UnitContent :=
  ⟨u.compiled, u.contentHash, u.runDoesSomething, u.hasMethods, u.notes⟩

/-- What both units of a script tell, whichever of them had to be compiled. -/
structure ScriptContent where
  preamble : Option UnitContent
  body : UnitContent
  deriving DecidableEq, Repr

def CompiledScript.content (c : CompiledScript) : ScriptContent :=
  ⟨c.preamble.map LoadedUnit.content, c.body.content⟩

namespace Script

variable (s : Script)

/-- What a unit tells that is compiled from some steps. -/
def unitContent (phase : Phase) (steps : List Step) : UnitContent where
  compiled := ⟨s.classNameOf phase, phase, s.kind, steps⟩
  contentHash := s.contentHash
  runDoesSomething := !steps.isEmpty
  hasMethods := false
  notes :=
    match phase with
    | .preamble => .none
    | .body => .buildScript (steps.any fun s => !s.action.isRequest)

/-- What a preamble tells, if there is one. -/
def preambleContent : Except BuildError (Option UnitContent) :=
  if s.hasPreamble then
    (s.plan .steady .preamble).map fun steps => some (s.unitContent .preamble steps)
  else .ok none

/-- What the script says, with no cache at all. -/
def content : Except BuildError ScriptContent := do
  let preamble ← s.preambleContent
  let steps ← s.plan .steady .body
  return ⟨preamble, s.unitContent .body steps⟩

end Script

/-! ## 1. Entries that serve a phase -/

/-- Entries that were made from some scripts, each under its name. -/
def MadeFrom (used : Set Script) (made : String → Option Made) : Prop :=
  ∀ n m, made n = some m → m.name = n ∧ m.Sound ∧ m.script ∈ used

variable {used : Set Script} {s : Script} {phase : Phase} {m : Made} {made : String → Option Made}

/-- A script whose source no other one is mistaken for. -/
def Unmistaken (used : Set Script) (s : Script) : Prop :=
  ∀ other ∈ used, other.contentHash = s.contentHash → other.source = s.source

/-- An entry that serves a phase has the steps of that phase. -/
theorem Made.stepsOf_of_serves (hsource : Unmistaken used s) (hm : m.Sound)
    (hused : m.script ∈ used) (h : m.serves s phase = true) :
    m.phase = phase ∧ m.script.kind = s.kind ∧
      stepsOf phase phase.hook (s.sourceOf phase) = .ok m.steps := by
  simp only [serves, decide_eq_true_eq] at h
  obtain ⟨hphase, hkind, hhash⟩ := h
  have hsame := hsource _ hused hhash
  refine ⟨hphase, hkind, ?_⟩
  have hpart : m.script.sourceOf m.phase = s.sourceOf phase := by
    rw [hphase]
    cases phase <;> simp only [Script.sourceOf, hsame]
  rw [← hm.steps, hpart, hphase]

theorem Made.content_unit (hname : m.name = s.classNameOf phase) (hphase : m.phase = phase)
    (hkind : m.script.kind = s.kind) (hhash : m.script.contentHash = s.contentHash) (scope : Nat) :
    (m.unit scope).content = s.unitContent phase m.steps := by
  subst hphase
  show (⟨⟨m.name, m.phase, m.script.kind, m.steps⟩, m.script.contentHash, _, _, _⟩ :
    UnitContent) = _
  rw [hname, hkind, hhash]
  rfl

/-- **The entry that a phase asks for tells what the phase says.** -/
theorem Script.content_entryFor (hsource : Unmistaken used s) (hmade : MadeFrom used made)
    (now : Instant) (scope : Nat) :
    (s.entryFor .steady phase now (made (s.classNameOf phase))).map
        (fun m => (m.unit scope).content) =
      (s.plan .steady phase).map (s.unitContent phase) := by
  rw [entryFor]
  split
  next m hm =>
    obtain ⟨hentry, hserves⟩ := Option.filter_eq_some_iff.mp hm
    obtain ⟨hname, hsound, hused⟩ := hmade _ m hentry
    obtain ⟨hphase, hkind, hsteps⟩ := Made.stepsOf_of_serves hsource hsound hused hserves
    have hhash : m.script.contentHash = s.contentHash := by
      simp only [Made.serves, decide_eq_true_eq] at hserves
      exact hserves.2.2
    have hplan : s.plan .steady phase = .ok m.steps := by
      show (stepsOf phase phase.hook (s.sourceOf phase)).mapError _ = _
      rw [hsteps]
      rfl
    rw [hplan]
    exact congrArg Except.ok (Made.content_unit hname hphase hkind hhash scope)
  next =>
    cases s.plan .steady phase with
    | error e => rfl
    | ok steps => rfl

/-! ## 2. Whole scripts -/

variable {c : Cache} {scope : Nat} {now : Instant} {g : Stage}

/-- The result of a phase tells what the phase says. -/
theorem Cache.content_phaseOn (hsource : Unmistaken used s) (hmade : MadeFrom used g.made) :
    (c.phaseOn .steady s scope now phase g).1.map (fun r => r.1.content) =
      (s.plan .steady phase).map (s.unitContent phase) := by
  rw [← s.content_entryFor hsource hmade now scope]
  cases hfor : s.entryFor .steady phase now (g.made (s.classNameOf phase)) with
  | error e => rw [phaseOn_error scope hfor]; rfl
  | ok m => rw [phaseOn_ok scope hfor rfl]; rfl

theorem Cache.content_preambleOn (hsource : Unmistaken used s)
    (hmade : MadeFrom used g.made) :
    (c.preambleOn .steady s scope now g).1.map (fun r => r.1.map LoadedUnit.content) =
      s.preambleContent := by
  rw [preambleOn, Script.preambleContent]
  split
  · have h : (c.phaseOn .steady s scope now .preamble g).1.map (fun r => r.1.content) = _ :=
      content_phaseOn hsource hmade
    revert h
    cases s.plan .steady .preamble with
    | error e =>
      rcases c.phaseOn .steady s scope now .preamble g with ⟨err | r, g'⟩
      · exact fun h => congrArg Except.error (Except.error.inj h)
      · intro h
        cases h
    | ok steps =>
      rcases c.phaseOn .steady s scope now .preamble g with ⟨err | ⟨unit, compiled⟩, g'⟩
      · intro h
        cases h
      · exact fun h => congrArg (fun u => Except.ok (some u)) (Except.ok.inj h)
  · rfl

/-- **What is loaded of a script is what the script says**, whatever entries there are. -/
theorem Cache.content_scriptOn (hsource : Unmistaken used s) (hmade : MadeFrom used g.made)
    (times : Phase → Instant) :
    (c.scriptOn .steady s scope times g).1.map CompiledScript.content = s.content := by
  have hpre : (c.preambleOn .steady s scope (times .preamble) g).1.map _ = _ :=
    content_preambleOn hsource hmade
  rw [scriptOn, Script.content, ← hpre]
  rcases hr : c.preambleOn .steady s scope (times .preamble) g with
    ⟨err | ⟨preamble, recompiled⟩, g'⟩
  · rfl
  · -- The preamble leaves the entry of the body as it was.
    have hbody := (preambleOn_others scope hr s.classNameOf_ne.symm).1
    have h : (s.entryFor .steady .body (times .body) (g'.made (s.classNameOf .body))).map
        (fun m => (m.unit scope).content) =
        (s.plan .steady .body).map (s.unitContent .body) := by
      rw [hbody]
      exact s.content_entryFor hsource hmade (times .body) scope
    simp only
    revert h
    cases hfor : s.entryFor .steady .body (times .body) (g'.made (s.classNameOf .body)) with
    | error e =>
      rw [phaseOn_error scope hfor]
      cases s.plan .steady .body with
      | error e' => exact fun h => congrArg Except.error (Except.error.inj h)
      | ok steps =>
        intro h
        cases h
    | ok m =>
      rw [phaseOn_ok scope hfor rfl]
      cases s.plan .steady .body with
      | error e' =>
        intro h
        cases h
      | ok steps =>
        exact fun h => congrArg (fun u => Except.ok (ScriptContent.mk _ u)) (Except.ok.inj h)

end ScriptPlugins
