import ScriptPlugins.Proofs.Cache.History
import ScriptPlugins.Proofs.Cache.Stages

/-!
# Incremental compiling — what is compiled is what has changed

The cache is a map from the names of classes to what they were compiled for.  A phase is compiled if
the map, right before the phase begins, does not have what the phase asks for; otherwise its entry
stays as it is and the scope counts one more use.  Either way the map has it then.  A phase that
fails leaves its name without an entry.
-/

namespace ScriptPlugins

/-! ## 1. The cache as a map -/

/-- What a class is compiled for. -/
structure Stamp where
  phase : Phase
  kind : ScriptKind
  contentHash : String
  deriving DecidableEq, Repr

def Metadata.stamp (m : Metadata) : Stamp := ⟨m.phase, m.kind, m.contentHash⟩

/-- What a phase of a script asks for. -/
def Script.stamp (s : Script) (phase : Phase) : Stamp := ⟨phase, s.kind, s.contentHash⟩

/-- The phases of a script, in the order in which they run. -/
def Script.phases (s : Script) : List Phase :=
  if s.hasPreamble then [.preamble, .body] else [.body]

theorem Script.phases_eq {s : Script} (hp : s.hasPreamble = true) :
    s.phases = [.preamble, .body] := by
  rw [phases, if_pos hp]

theorem Script.phases_eq_body {s : Script} (hp : s.hasPreamble = false) : s.phases = [.body] := by
  rw [phases, hp]
  rfl

namespace Cache

variable (c : Cache)

/-- The files of an entry. -/
def entryFiles (name : String) : List Path :=
  [classFile (c.classesDir name) name, metadataFile (c.metadataDir name)]

/-- What the class of a name was compiled for, if there is an entry. -/
def stamp? (t : FileTree) (name : String) : Option Stamp :=
  if t.isThere (classFile (c.classesDir name) name) then
    (t.readMetadata (c.metadataDir name)).toOption.map Metadata.stamp
  else none

end Cache

/-- A scope that is open, exports nothing and was never used. -/
def ScopeTree.IsFresh (t : ScopeTree) (scope : Nat) : Prop :=
  ∃ sc, t.scope? scope = some sc ∧ sc.locked = false ∧ sc.reuses = 0 ∧
    ∀ n : String, sc.classes[n]? = none

theorem Made.serves_iff {m : Made} {s : Script} {phase : Phase} :
    m.serves s phase = true ↔ m.metadata.stamp = s.stamp phase := by
  simp only [serves, decide_eq_true_eq, Metadata.stamp, Script.stamp, metadata, Stamp.mk.injEq]

/-- An entry is fresh if it is what the phase asks for. -/
theorem Script.isNone_fresh?_iff {s : Script} {phase : Phase} {entry : Option Made} :
    (s.fresh? phase entry).isNone = true ↔
      entry.map (fun m => m.metadata.stamp) ≠ some (s.stamp phase) := by
  cases entry with
  | none => simp [fresh?]
  | some m =>
    rw [fresh?, Option.map_some, Option.isNone_iff_eq_none, Option.filter_eq_none_iff]
    simp only [Option.some.injEq, forall_eq', ne_eq]
    exact not_congr Made.serves_iff

namespace Cache

open Owning

variable {c : Cache} {o : Owning} {C M : Location} {K : Set String} {made : String → Option Made}
  {t : FileTree} {w w' : World} {name : String} {s : Script} {phase : Phase} {g g' : Stage}
  {used : Set Script}

/-- The map tells what the entries were made from. -/
theorem Shelf.stamp?_eq (h : c.Shelf o C M K (Boxes.ofMade ∘ made) t) (hn : name ∈ K)
    (ht : c.Takes name) (hsound : ∀ m, made name = some m → m.Sound) :
    c.stamp? t name = (made name).map fun m => m.metadata.stamp := by
  cases hm : made name with
  | none =>
    have hclass := h.classes name hn
    rw [Function.comp_apply, hm] at hclass
    have hthere : t.isThere (classFile (c.classesDir name) name) = false :=
      hclass.not_isThere h.classesRoot ht.isName ht.file ht.classPath
    rw [stamp?, hthere]
    rfl
  | some m =>
    have hboxes : (Boxes.ofMade ∘ made) name = m.boxes := by rw [Function.comp_apply, hm]; rfl
    have hthere : t.isThere (classFile (c.classesDir name) name) = true :=
      FileTree.isThere_of_look ((h.stores hboxes hn).1.look h.classesRoot ht.isName
        ht.file ht.classPath)
    rw [stamp?, hthere, if_pos rfl, h.readMetadata hn ht hboxes (hsound m hm)]
    rfl

/-- The files of an entry that stays do not change. -/
theorem Shelf.look_entryFiles (h : c.Shelf o C M K (Boxes.ofMade ∘ made) t) (hn : name ∈ K)
    (ht : c.Takes name) {m : Made} (hm : made name = some m) :
    t.look (classFile (c.classesDir name) name) = .ok (.file m.compiled.print.toUTF8) ∧
      t.look (metadataFile (c.metadataDir name)) = .ok (.file m.metadata.print.toUTF8) := by
  have hboxes : (Boxes.ofMade ∘ made) name = m.boxes := by rw [Function.comp_apply, hm]; rfl
  obtain ⟨h₁, h₂⟩ := h.stores hboxes hn
  exact ⟨h₁.look h.classesRoot ht.isName ht.file ht.classPath,
    h₂.look h.metadataRoot ht.isName isName_metadata ht.metadataPath⟩

/-! ## 2. One phase -/

/-- How often a scope was used. -/
def reusesOf (scope : Nat) (w : World) : Nat := (w.scopes.scope? scope).elim 0 Scope.reuses

/-- What a phase makes of its stage and of its scope when it has run. -/
structure Ran (s : Script) (phase : Phase) (scope : Nat) (g g' : Stage) (w w' : World)
    (r : Except BuildError (LoadedUnit × Bool)) : Prop where
  made : ∀ n, n ≠ s.classNameOf phase → g'.made n = g.made n
  exports : ∀ n, n ≠ s.classNameOf phase → g'.exports n = g.exports n
  failed : ∀ err, r = .error err → g'.made (s.classNameOf phase) = none ∧
    w'.registered = w.registered
  stamped : ∀ unit compiled, r = .ok (unit, compiled) →
    (g'.made (s.classNameOf phase)).map (fun m => m.metadata.stamp) = some (s.stamp phase)
  answered : ∀ unit compiled, r = .ok (unit, compiled) →
    (compiled = true ↔ (g.made (s.classNameOf phase)).map (fun m => m.metadata.stamp) ≠
      some (s.stamp phase)) ∧
    (compiled = false → g'.made (s.classNameOf phase) = g.made (s.classNameOf phase)) ∧
    reusesOf scope w' = reusesOf scope w + if compiled then 0 else 1

theorem reusesOf_eq (o : Owning) (w : World) : reusesOf o.scope w = (o.tally w).2.2 := rfl

/-- **One phase compiles its entry or uses it again.** -/
theorem exists_ran (compiler : Compiler) (hseat : Seat o C M K) (hn : s.classNameOf phase ∈ K)
    (hs : s.FitsIn c) (h : c.On o C M K g w) (hx : g.exports (s.classNameOf phase) = none) :
    ∃ g', c.On o C M K g' (Job.run (c.compilePhase compiler s o.scope phase).run w).2 ∧
      Ran s phase o.scope g g' w (Job.run (c.compilePhase compiler s o.scope phase).run w).2
        (Job.run (c.compilePhase compiler s o.scope phase).run w).1 := by
  obtain ⟨hkeeps, d, hd, now, -, g', hg', he, hon⟩ :=
    (ends_compilePhase compiler hseat hn hs h hx).run
  refine ⟨g', hon, ?_⟩
  have hreuses := congrArg (fun e : Tally => e.2.2) hd
  have hregistered := congrArg (fun e : Tally => e.1) hd
  revert hg'
  generalize (Job.run (c.compilePhase compiler s o.scope phase).run w).1 = r
  intro hg'
  cases hfor : s.entryFor compiler phase now (g.made (s.classNameOf phase)) with
  | error err =>
    rw [phaseOn_error o.scope hfor] at hg'
    cases hg'
    have hzero : d = 0 := left_eq_add.mp he.symm
    rw [hzero] at hregistered
    refine ⟨fun n hne => Function.update_of_ne hne .., fun _ _ => rfl, fun _ _ =>
      ⟨Function.update_self .., ?_⟩, fun _ _ h => (by cases h), fun _ _ h => by cases h⟩
    -- Nothing was counted, so what was appended to is as long as before.
    have hperm : ((Job.run (c.compilePhase compiler s o.scope phase).run w).2.registered :
        Multiset Path) = w.registered := hregistered.trans (add_zero _)
    exact (hkeeps.registered.eq_of_length (Multiset.coe_eq_coe.mp hperm).length_eq.symm).symm
  | ok m =>
    rw [phaseOn_ok o.scope hfor rfl] at hg'
    cases hg'
    have hadded : d = ({c.classesDir (s.classNameOf phase)}, {c.classesDir (s.classNameOf phase)},
        if (s.fresh? phase (g.made (s.classNameOf phase))).isNone then 0 else 1) :=
      add_left_cancel he
    refine ⟨fun n hne => Function.update_of_ne hne .., fun n hne => Function.update_of_ne hne ..,
      fun _ h => (by cases h), fun _ _ _ => ?_, fun unit compiled hr => ?_⟩
    · show (Function.update g.made (s.classNameOf phase) (some m) (s.classNameOf phase)).map _ = _
      rw [Function.update_self]
      exact congrArg some (Made.serves_iff.mp (serves_of_entryFor hfor))
    cases hr
    refine ⟨Script.isNone_fresh?_iff, fun hfresh => ?_, ?_⟩
    · obtain ⟨m', hm'⟩ := Option.isSome_iff_exists.mp (Option.isNone_eq_false_iff.mp hfresh)
      have hsame : m' = m := by
        rw [Script.entryFor, hm'] at hfor
        exact Except.ok.inj hfor
      rw [← hsame, (Option.filter_eq_some_iff.mp hm').1]
      exact Function.update_self ..
    · rw [reusesOf_eq, reusesOf_eq, hreuses, hadded]
      rfl

/-- The map before a phase, as its stage tells it. -/
theorem stamp?_of_on (h : c.On o C M K g w) (hn : name ∈ K) (ht : c.Takes name) :
    c.stamp? w.files name = (g.made name).map fun m => m.metadata.stamp :=
  h.knows.shelf.stamp?_eq hn ht fun m hm => (h.sound name hn m hm).2

/-- The files of an entry that is the same in two stages. -/
theorem look_of_on (h : c.On o C M K g w) (h' : c.On o C M K g' w') (hn : name ∈ K)
    (ht : c.Takes name) (hsame : g'.made name = g.made name) (hthere : g.made name ≠ none) :
    ∀ p ∈ c.entryFiles name, ∃ bytes, w.files.look p = .ok (.file bytes) ∧
      w'.files.look p = .ok (.file bytes) := by
  obtain ⟨m, hm⟩ := Option.ne_none_iff_exists'.mp hthere
  obtain ⟨hclass, hmeta⟩ := h.knows.shelf.look_entryFiles hn ht hm
  obtain ⟨hclass', hmeta'⟩ := h'.knows.shelf.look_entryFiles hn ht (hsame.trans hm)
  intro p hp
  rcases List.mem_pair.mp hp with rfl | rfl
  · exact ⟨_, hclass, hclass'⟩
  · exact ⟨_, hmeta, hmeta'⟩

/-! ## 3. Both phases -/

/-- The world in which a phase of a script begins. -/
def worldBefore (c : Cache) (compiler : Compiler) (s : Script) (scope : Nat) (w : World) :
    Phase → World
  | .preamble => w
  | .body => (Job.run (c.compilePreamble compiler s scope).run w).2

/-- How a phase of a script ends, and the world then. -/
def runPhase (c : Cache) (compiler : Compiler) (s : Script) (scope : Nat) (w : World)
    (phase : Phase) : Except BuildError (LoadedUnit × Bool) × World :=
  Job.run (c.compilePhase compiler s scope phase).run (c.worldBefore compiler s scope w phase)

theorem runPhase_preamble (c : Cache) (compiler : Compiler) (s : Script) (scope : Nat) (w : World) :
    c.runPhase compiler s scope w .preamble =
      Job.run (c.compilePhase compiler s scope .preamble).run w := rfl

/-- How a script ends, and the world then. -/
def runScript (c : Cache) (compiler : Compiler) (s : Script) (scope : Nat) (w : World) :
    Except BuildError CompiledScript × World :=
  Job.run (c.compileScript compiler s scope).run w

/-- **Compiling is exactly incremental.**  What is compiled is what the map did not have right
before; every other entry keeps its files, and each of them is one more use of the scope.  A script
that answers leaves in the map what each of its phases asks for.  A phase that fails leaves no entry
and registers nothing, and a script ends with the phase that fails. -/
structure Incremental (c : Cache) (compiler : Compiler) (s : Script) (scope : Nat) (w : World) :
    Prop where
  recompiled : ∀ script, (c.runScript compiler s scope w).1 = .ok script →
    script.recompiled = s.phases.filter fun phase =>
      c.stamp? (c.worldBefore compiler s scope w phase).files (s.classNameOf phase) ≠
        some (s.stamp phase)
  unchanged : ∀ script, (c.runScript compiler s scope w).1 = .ok script →
    ∀ phase ∈ s.phases, phase ∉ script.recompiled → ∀ p ∈ c.entryFiles (s.classNameOf phase),
      ∃ bytes, w.files.look p = .ok (.file bytes) ∧
        (c.runScript compiler s scope w).2.files.look p = .ok (.file bytes)
  reuses : ∀ script, (c.runScript compiler s scope w).1 = .ok script →
    reusesOf scope (c.runScript compiler s scope w).2 =
      (s.phases.filter (· ∉ script.recompiled)).length
  stamped : ∀ script, (c.runScript compiler s scope w).1 = .ok script → ∀ phase ∈ s.phases,
    c.stamp? (c.runScript compiler s scope w).2.files (s.classNameOf phase) = some (s.stamp phase)
  failed : ∀ phase ∈ s.phases, ∀ err w', c.runPhase compiler s scope w phase = (.error err, w') →
    c.stamp? w'.files (s.classNameOf phase) = none ∧
      w'.registered = (c.worldBefore compiler s scope w phase).registered
  ends : ∀ err w', c.runScript compiler s scope w = (.error err, w') →
    ∃ phase ∈ s.phases, c.runPhase compiler s scope w phase = (.error err, w')

section Run

variable (compiler : Compiler) {scope : Nat}

theorem run_compilePreamble_of_not (hp : s.hasPreamble = false) (w : World) :
    Job.run (c.compilePreamble compiler s scope).run w = (.ok (none, []), w) := by
  rw [compilePreamble, if_neg (by simp [hp])]
  rfl

variable {compiler}

theorem run_compilePreamble_ok (hp : s.hasPreamble = true) {unit : LoadedUnit} {compiled : Bool}
    (h : c.runPhase compiler s scope w .preamble = (.ok (unit, compiled), w')) :
    Job.run (c.compilePreamble compiler s scope).run w =
      (.ok (some unit, if compiled then [.preamble] else []), w') := by
  rw [compilePreamble, if_pos hp]
  exact Attempt.run_bind_ok h

theorem run_compilePreamble_error (hp : s.hasPreamble = true) {err : BuildError}
    (h : c.runPhase compiler s scope w .preamble = (.error err, w')) :
    Job.run (c.compilePreamble compiler s scope).run w = (.error err, w') := by
  rw [compilePreamble, if_pos hp]
  exact Attempt.run_bind_error h

/-- The world behind a preamble is the one before the body. -/
theorem worldBefore_body (hp : s.hasPreamble = true) :
    c.worldBefore compiler s scope w .body = (c.runPhase compiler s scope w .preamble).2 := by
  rw [worldBefore]
  rcases h : c.runPhase compiler s scope w .preamble with ⟨err | ⟨unit, compiled⟩, w'⟩
  · rw [run_compilePreamble_error hp h]
  · rw [run_compilePreamble_ok hp h]

/-- A script whose preamble has been compiled, or that has none, ends as its body does. -/
theorem runScript_of_body {preamble : Option LoadedUnit} {recompiled : List Phase}
    (h : Job.run (c.compilePreamble compiler s scope).run w = (.ok (preamble, recompiled), w')) :
    (c.runScript compiler s scope w).1 = (c.runPhase compiler s scope w .body).1.map
        (fun (body, compiled) => ⟨preamble, body, recompiled ++ if compiled then [.body] else []⟩) ∧
      (c.runScript compiler s scope w).2 = (c.runPhase compiler s scope w .body).2 := by
  rw [runScript, compileScript, Attempt.run_bind_ok h, runPhase, worldBefore, h]
  rcases hr : Job.run (c.compilePhase compiler s scope .body).run w' with
    ⟨err | ⟨body, compiled⟩, w''⟩
  · rw [Attempt.run_bind_error hr]
    exact ⟨rfl, rfl⟩
  · rw [Attempt.run_bind_ok hr]
    exact ⟨rfl, rfl⟩

end Run

/-! ## 4. Histories -/

/-- The stages of a script: where it begins, behind its preamble, and behind its body. -/
structure Staged (c : Cache) (C M : Location) (compiler : Compiler) (s : Script) (scope : Nat)
    (w : World) (g g₁ g₂ : Stage) : Prop where
  on : c.On (owning C M scope) C M Set.univ g w
  on₁ : c.On (owning C M scope) C M Set.univ g₁ (c.worldBefore compiler s scope w .body)
  on₂ : c.On (owning C M scope) C M Set.univ g₂ (c.runPhase compiler s scope w .body).2
  same : s.hasPreamble = false → g₁ = g ∧ c.worldBefore compiler s scope w .body = w
  preamble : s.hasPreamble = true → Ran s .preamble scope g g₁ w
    (c.worldBefore compiler s scope w .body) (c.runPhase compiler s scope w .preamble).1
  body : Ran s .body scope g₁ g₂ (c.worldBefore compiler s scope w .body)
    (c.runPhase compiler s scope w .body).2 (c.runPhase compiler s scope w .body).1

variable {scope : Nat}

theorem Sane.staged (h : c.Sane C M used t w) (hs : s.FitsIn c) (compiler : Compiler)
    (hscope : w.scopes.IsFresh scope) : ∃ g g₁ g₂, c.Staged C M compiler s scope w g g₁ g₂ := by
  obtain ⟨sc, hsc, hopen, -, hclasses⟩ := hscope
  obtain ⟨made, hmade, hshelf⟩ := h.entries
  let g : Stage := ⟨made, fun _ => none, 0⟩
  have hon : c.On (owning C M scope) C M Set.univ g w :=
    ⟨⟨hshelf.rescope _, ⟨h.scopes, sc, hsc, hopen, fun n _ => hclasses n⟩, h.now⟩,
      fun n _ m hm => ⟨(hmade n m hm).1, (hmade n m hm).2.1⟩⟩
  have hseat : Seat (owning C M scope) C M Set.univ := h.housed.seat scope
  have hbody {g₁ : Stage} (hon₁ : c.On (owning C M scope) C M Set.univ g₁
      (c.worldBefore compiler s scope w .body)) (hx : g₁.exports (s.classNameOf .body) = none) :=
    exists_ran compiler hseat (Set.mem_univ _) hs hon₁ hx
  cases hp : s.hasPreamble with
  | false =>
    -- Without a preamble the body is the first phase, and starts where the script does.
    have hsame : c.worldBefore compiler s scope w .body = w :=
      congrArg Prod.snd (run_compilePreamble_of_not compiler hp w)
    obtain ⟨g₂, hon₂, hran₂⟩ := hbody (by rw [hsame]; exact hon) rfl
    exact ⟨g, g, g₂, hon, by rw [hsame]; exact hon, hon₂, fun _ => ⟨rfl, hsame⟩,
      fun h => (by rw [hp] at h; cases h), hran₂⟩
  | true =>
    have hnone : g.exports (s.classNameOf .preamble) = none := rfl
    obtain ⟨g₁, hon₁, hran₁⟩ := exists_ran compiler hseat (Set.mem_univ _) hs hon hnone
    have hbefore : c.worldBefore compiler s scope w .body =
        (c.runPhase compiler s scope w .preamble).2 := worldBefore_body hp
    have hon₁' : c.On (owning C M scope) C M Set.univ g₁
        (c.worldBefore compiler s scope w .body) := by
      rw [hbefore]
      exact hon₁
    have hran₁' : Ran s .preamble scope g g₁ w (c.worldBefore compiler s scope w .body)
        (c.runPhase compiler s scope w .preamble).1 := by
      rw [hbefore]
      exact hran₁
    obtain ⟨g₂, hon₂, hran₂⟩ := hbody hon₁' (hran₁.exports _ s.classNameOf_ne.symm)
    exact ⟨g, g₁, g₂, hon, hon₁', hon₂, fun h => (by rw [hp] at h; cases h), fun _ => hran₁', hran₂⟩

/-- A phase that fails leaves no entry and registers nothing. -/
theorem Staged.failed {g g₁ g₂ : Stage} {compiler : Compiler}
    (h : c.Staged C M compiler s scope w g g₁ g₂) (hs : s.FitsIn c) (hphase : phase ∈ s.phases)
    {err : BuildError} (hr : c.runPhase compiler s scope w phase = (.error err, w')) :
    c.stamp? w'.files (s.classNameOf phase) = none ∧
      w'.registered = (c.worldBefore compiler s scope w phase).registered := by
  have hw : w' = (c.runPhase compiler s scope w phase).2 := by rw [hr]
  subst hw
  have hr₁ : (c.runPhase compiler s scope w phase).1 = .error err := by rw [hr]
  cases phase with
  | preamble =>
    have hp : s.hasPreamble = true := by
      by_contra hp
      rw [Script.phases_eq_body (Bool.eq_false_iff.mpr hp)] at hphase
      simp at hphase
    obtain ⟨hgone, hregistered⟩ := (h.preamble hp).failed err hr₁
    rw [← worldBefore_body hp, stamp?_of_on h.on₁ (Set.mem_univ _) (hs.names _), hgone]
    exact ⟨rfl, hregistered⟩
  | body =>
    obtain ⟨hgone, hregistered⟩ := h.body.failed err hr₁
    rw [stamp?_of_on h.on₂ (Set.mem_univ _) (hs.names _), hgone]
    exact ⟨rfl, hregistered⟩

/-- A script that fails ends with the phase that fails. -/
theorem exists_failed {compiler : Compiler} {err : BuildError}
    (h : c.runScript compiler s scope w = (.error err, w')) :
    ∃ phase ∈ s.phases, c.runPhase compiler s scope w phase = (.error err, w') := by
  have hbody {preamble : Option LoadedUnit} {recompiled : List Phase} {w₁ : World}
      (hpre : Job.run (c.compilePreamble compiler s scope).run w =
        (.ok (preamble, recompiled), w₁)) :
      c.runPhase compiler s scope w .body = (.error err, w') := by
    obtain ⟨hfirst, hsecond⟩ := runScript_of_body hpre
    rw [h] at hfirst hsecond
    exact Prod.ext (map_eq_error hfirst.symm) hsecond.symm
  cases hp : s.hasPreamble with
  | false =>
    exact ⟨.body, by simp [Script.phases_eq_body hp],
      hbody (run_compilePreamble_of_not compiler hp w)⟩
  | true =>
    have hphases := Script.phases_eq hp
    rcases hr : c.runPhase compiler s scope w .preamble with ⟨err' | ⟨unit, compiled⟩, w₁⟩
    · refine ⟨.preamble, by simp [hphases], ?_⟩
      have hall : c.runScript compiler s scope w = (.error err', w₁) :=
        Attempt.run_bind_error (run_compilePreamble_error hp hr)
      rw [hall, Prod.mk.injEq, Except.error.injEq] at h
      rw [hr, h.1, h.2]
    · exact ⟨.body, by simp [hphases], hbody (run_compilePreamble_ok hp hr)⟩

/-- A phase that answers was compiled if the map did not have what it asks for. -/
theorem Ran.compiled_iff {r : Except BuildError (LoadedUnit × Bool)}
    (h : Ran s phase scope g g' w w' r)
    (hon : c.On (owning C M scope) C M Set.univ g w) (hs : s.FitsIn c) {unit : LoadedUnit}
    {compiled : Bool} (hr : r = .ok (unit, compiled)) :
    compiled = true ↔ c.stamp? w.files (s.classNameOf phase) ≠ some (s.stamp phase) := by
  rw [stamp?_of_on hon (Set.mem_univ _) (hs.names phase)]
  exact (h.answered unit compiled hr).1

/-- An entry that is used again has been there. -/
theorem Ran.there {r : Except BuildError (LoadedUnit × Bool)} (h : Ran s phase scope g g' w w' r)
    {unit : LoadedUnit} (hr : r = .ok (unit, false)) :
    g'.made (s.classNameOf phase) = g.made (s.classNameOf phase) ∧
      g.made (s.classNameOf phase) ≠ none := by
  obtain ⟨hiff, hsame, -⟩ := h.answered unit false hr
  refine ⟨hsame rfl, fun hnone => ?_⟩
  rw [hnone] at hiff
  exact absurd (hiff.mpr (by simp)) Bool.false_ne_true

/-- What a script that answers has done: it compiled what the map did not have, and used the rest
again, which is counted.  The map has what all its phases ask for. -/
structure Answered (c : Cache) (compiler : Compiler) (s : Script) (scope : Nat) (w : World)
    (g g₂ : Stage) (script : CompiledScript) : Prop where
  recompiled : script.recompiled = s.phases.filter fun phase =>
    c.stamp? (c.worldBefore compiler s scope w phase).files (s.classNameOf phase) ≠
      some (s.stamp phase)
  kept : ∀ phase ∈ s.phases, phase ∉ script.recompiled →
    g₂.made (s.classNameOf phase) = g.made (s.classNameOf phase) ∧
      g.made (s.classNameOf phase) ≠ none
  stamped : ∀ phase ∈ s.phases,
    (g₂.made (s.classNameOf phase)).map (fun m => m.metadata.stamp) = some (s.stamp phase)
  ends : (c.runScript compiler s scope w).2 = (c.runPhase compiler s scope w .body).2
  reuses : reusesOf scope (c.runScript compiler s scope w).2 =
    (s.phases.filter (· ∉ script.recompiled)).length

theorem Staged.answered_body {g g₁ g₂ : Stage} {compiler : Compiler}
    (h : c.Staged C M compiler s scope w g g₁ g₂) (hs : s.FitsIn c) (hscope : reusesOf scope w = 0)
    (hp : s.hasPreamble = false) {script : CompiledScript}
    (hr : (c.runScript compiler s scope w).1 = .ok script) :
    c.Answered compiler s scope w g g₂ script := by
  obtain ⟨rfl, hbefore⟩ := h.same hp
  obtain ⟨hanswer, hend⟩ := runScript_of_body (run_compilePreamble_of_not compiler hp w)
  obtain ⟨⟨body, compiled⟩, hbody, rfl⟩ := map_eq_ok (hanswer.symm.trans hr)
  have hiff := h.body.compiled_iff h.on₁ hs hbody
  obtain ⟨-, -, hreuses⟩ := h.body.answered body compiled hbody
  rw [hbefore, hscope, Nat.zero_add] at hreuses
  have hphases := Script.phases_eq_body hp
  refine ⟨?_, fun phase hphase hnot => ?_, fun phase hphase => ?_, hend, ?_⟩
  · rw [hphases]
    cases compiled <;> simp_all
  · rw [hphases] at hphase
    cases List.mem_singleton.mp hphase
    cases compiled with
    | true => simp at hnot
    | false => exact h.body.there hbody
  · rw [hphases] at hphase
    cases List.mem_singleton.mp hphase
    exact h.body.stamped body compiled hbody
  · rw [hend, hreuses, hphases]
    cases compiled <;> simp

theorem Staged.answered_both {g g₁ g₂ : Stage} {compiler : Compiler}
    (h : c.Staged C M compiler s scope w g g₁ g₂) (hs : s.FitsIn c) (hscope : reusesOf scope w = 0)
    (hp : s.hasPreamble = true) {script : CompiledScript}
    (hr : (c.runScript compiler s scope w).1 = .ok script) :
    c.Answered compiler s scope w g g₂ script := by
  rcases hpre : c.runPhase compiler s scope w .preamble with ⟨err | ⟨unit, first⟩, w₁⟩
  · have hall : c.runScript compiler s scope w = (.error err, w₁) :=
      Attempt.run_bind_error (run_compilePreamble_error hp hpre)
    rw [hall] at hr
    cases hr
  · have hpreamble : (c.runPhase compiler s scope w .preamble).1 = .ok (unit, first) := by rw [hpre]
    obtain ⟨hanswer, hend⟩ := runScript_of_body (run_compilePreamble_ok hp hpre)
    obtain ⟨⟨body, second⟩, hbody, rfl⟩ := map_eq_ok (hanswer.symm.trans hr)
    have hiff := (h.preamble hp).compiled_iff h.on hs hpreamble
    have hiff' := h.body.compiled_iff h.on₁ hs hbody
    obtain ⟨-, -, hreuses⟩ := (h.preamble hp).answered unit first hpreamble
    obtain ⟨-, -, hreuses'⟩ := h.body.answered body second hbody
    rw [hreuses, hscope, Nat.zero_add] at hreuses'
    have hphases := Script.phases_eq hp
    refine ⟨?_, fun phase _ hnot => ?_, fun phase _ => ?_, hend, ?_⟩
    · have hfirst : c.worldBefore compiler s scope w .preamble = w := rfl
      rw [hphases]
      cases first <;> cases second <;> simp_all
    · -- Each phase leaves the entry of the other one as it is.
      cases phase with
      | preamble =>
        cases first with
        | true => simp at hnot
        | false =>
          obtain ⟨hsame, hthere⟩ := (h.preamble hp).there hpreamble
          exact ⟨(h.body.made _ s.classNameOf_ne).trans hsame, hthere⟩
      | body =>
        cases second with
        | true => simp at hnot
        | false =>
          obtain ⟨hsame, hthere⟩ := h.body.there hbody
          have hother := (h.preamble hp).made _ s.classNameOf_ne.symm
          exact ⟨hsame.trans hother, hother ▸ hthere⟩
    · cases phase with
      | preamble =>
        rw [h.body.made _ s.classNameOf_ne]
        exact (h.preamble hp).stamped unit first hpreamble
      | body => exact h.body.stamped body second hbody
    · rw [hend, hreuses', hphases]
      cases first <;> cases second <;> simp

/-- A script that answers has compiled what the map did not have, and has used the rest again. -/
theorem Staged.answered {g g₁ g₂ : Stage} {compiler : Compiler}
    (h : c.Staged C M compiler s scope w g g₁ g₂) (hs : s.FitsIn c) (hscope : reusesOf scope w = 0)
    {script : CompiledScript} (hr : (c.runScript compiler s scope w).1 = .ok script) :
    c.Answered compiler s scope w g g₂ script := by
  cases hp : s.hasPreamble with
  | false => exact h.answered_body hs hscope hp hr
  | true => exact h.answered_both hs hscope hp hr

/-- A script that answers leaves in the map what each of its phases asks for. -/
theorem Staged.stamp?_eq {g g₁ g₂ : Stage} {compiler : Compiler}
    (h : c.Staged C M compiler s scope w g g₁ g₂) (hs : s.FitsIn c) {script : CompiledScript}
    (hanswered : c.Answered compiler s scope w g g₂ script) (hphase : phase ∈ s.phases) :
    c.stamp? (c.runScript compiler s scope w).2.files (s.classNameOf phase) =
      some (s.stamp phase) := by
  rw [hanswered.ends, stamp?_of_on h.on₂ (Set.mem_univ _) (hs.names phase)]
  exact hanswered.stamped phase hphase

/-- What the map has for a body does not change while the preamble runs. -/
theorem Staged.stamp?_body {g g₁ g₂ : Stage} {compiler : Compiler}
    (h : c.Staged C M compiler s scope w g g₁ g₂) (hs : s.FitsIn c) :
    c.stamp? (c.worldBefore compiler s scope w .body).files (s.classNameOf .body) =
      c.stamp? w.files (s.classNameOf .body) := by
  rw [stamp?_of_on h.on₁ (Set.mem_univ _) (hs.names _),
    stamp?_of_on h.on (Set.mem_univ _) (hs.names _)]
  cases hp : s.hasPreamble with
  | false => rw [(h.same hp).1]
  | true => rw [(h.preamble hp).made _ s.classNameOf_ne.symm]

theorem Reached.staged (hfits : ∀ s ∈ used, s.FitsIn c) (h : c.Reached C M used w) (hs : s ∈ used)
    (compiler : Compiler) (hscope : w.scopes.IsFresh scope) :
    ∃ g g₁ g₂, c.Staged C M compiler s scope w g g₁ g₂ ∧
      ∀ script, (c.runScript compiler s scope w).1 = .ok script →
        c.Answered compiler s scope w g g₂ script := by
  obtain ⟨t, hsane⟩ := h.sane hfits
  obtain ⟨g, g₁, g₂, hstaged⟩ := hsane.staged (hfits s hs) compiler hscope
  have hunused : reusesOf scope w = 0 := by
    obtain ⟨sc, hsc, -, hreuses, -⟩ := hscope
    rw [reusesOf, hsc, Option.elim_some, hreuses]
  exact ⟨g, g₁, g₂, hstaged, fun script hr => hstaged.answered (hfits s hs) hunused hr⟩

/-- **Whatever was compiled and removed before, compiling is exactly incremental.** -/
theorem compileScript_incremental (hfits : ∀ s ∈ used, s.FitsIn c) (h : c.Reached C M used w)
    (hs : s ∈ used) (compiler : Compiler) (hscope : w.scopes.IsFresh scope) :
    c.Incremental compiler s scope w := by
  obtain ⟨g, g₁, g₂, hstaged, hanswered⟩ := h.staged hfits hs compiler hscope
  have hfit := hfits s hs
  refine ⟨fun script hr => (hanswered script hr).recompiled, fun script hr phase hphase hnot => ?_,
    fun script hr => (hanswered script hr).reuses,
    fun script hr phase hphase => hstaged.stamp?_eq hfit (hanswered script hr) hphase,
    fun phase hphase err w' hr => hstaged.failed hfit hphase hr, fun err w' hr => exists_failed hr⟩
  obtain ⟨hsame, hthere⟩ := (hanswered script hr).kept phase hphase hnot
  rw [(hanswered script hr).ends]
  exact look_of_on hstaged.on hstaged.on₂ (Set.mem_univ _) (hfit.names phase) hsame hthere

/-- **What the map has is not compiled again.**  A script that finds in the map what each of its
phases asks for uses all of it. -/
theorem Reached.uses_again (hfits : ∀ s ∈ used, s.FitsIn c) (h : c.Reached C M used w)
    (hs : s ∈ used) {compiler : Compiler} (hscope : w.scopes.IsFresh scope)
    (hstamps : ∀ phase ∈ s.phases,
      c.stamp? w.files (s.classNameOf phase) = some (s.stamp phase))
    {script : CompiledScript} (hr : c.runScript compiler s scope w = (.ok script, w')) :
    script.recompiled = [] ∧ reusesOf scope w' = s.phases.length := by
  obtain ⟨g, g₁, g₂, hstaged, hanswered⟩ := h.staged hfits hs compiler hscope
  obtain ⟨hrecompiled, -, -, -, hreuses⟩ := hanswered script (congrArg Prod.fst hr)
  have hnone : script.recompiled = [] := by
    rw [hrecompiled, List.filter_eq_nil_iff]
    intro phase hphase
    cases phase with
    | preamble => simp [worldBefore, hstamps _ hphase]
    | body => simp [hstaged.stamp?_body (hfits s hs), hstamps _ hphase]
  rw [hr, hnone] at hreuses
  exact ⟨hnone, by simpa using hreuses⟩

/-- A new scope is fresh. -/
theorem isFresh_grown {t : ScopeTree} {parent : Nat} {sc : Scope} (hsc : t.scope? parent = some sc)
    (name : String) : (t.grown parent sc name).IsFresh t.slots.length :=
  ⟨_, ScopeTree.scope?_grown_new hsc name, rfl, rfl, fun _ => Std.ExtTreeMap.getElem?_empty⟩

/-- A script that has answered in a new scope has left in the map what it asks for. -/
theorem Reached.stamps (hfits : ∀ s ∈ used, s.FitsIn c) (h : c.Reached C M used w) (hs : s ∈ used)
    {compiler : Compiler} {parent : Nat} {sc : Scope} (hsc : w.scopes.scope? parent = some sc)
    {name : String} {script : CompiledScript}
    (hrun : Job.run (c.compileInChild compiler s parent name).run w = (.ok script, w')) :
    ∀ phase ∈ s.phases, c.stamp? w'.files (s.classNameOf phase) = some (s.stamp phase) := by
  obtain ⟨g, g₁, g₂, hstaged, hanswered⟩ :=
    (h.grown hsc name).staged hfits hs compiler (isFresh_grown hsc name)
  have hscript : c.runScript compiler s w.scopes.slots.length (grownWorld w parent sc name) =
      (.ok script, w') := (run_compileInChild hsc compiler name).symm.trans hrun
  intro phase hphase
  have hstamp :=
    hstaged.stamp?_eq (hfits s hs) (hanswered script (congrArg Prod.fst hscript)) hphase
  rwa [hscript] at hstamp

/-- The theorem for a script that was compiled before: it answers, nothing is compiled, and the
scope counts one use. -/
theorem compileScript_incremental_again :
    let w₁ := (Job.run (small.compileInChild .steady smallScript 0 "first").run smallWorld).2
    let w₂ := (Job.run (Attempt.newScope 0 "second").run w₁).2
    let scope := w₁.scopes.slots.length
    w₂.scopes.IsFresh scope ∧ small.Incremental .steady smallScript scope w₂ ∧
      ∃ script w₃, small.runScript .steady smallScript scope w₂ = (.ok script, w₃) ∧
        script.recompiled = [] ∧ reusesOf scope w₃ = 1 := by
  have hfits : ∀ s ∈ ({smallScript} : Set Script), s.FitsIn small := fun s hs =>
    (show s = smallScript from hs) ▸ fitsIn_smallScript
  have hsane : small.Sane ["c"] ["m"] {smallScript} smallWorld.files smallWorld :=
    fresh_smallWorld.sane
  have hroot : smallWorld.scopes.isLive 0 = true := rfl
  have hscope : smallWorld.scopes.scope? 0 = some _ := rfl
  have hstart : small.Reached ["c"] ["m"] {smallScript} smallWorld := .start fresh_smallWorld
  have hphases : smallScript.phases = [.body] := Script.phases_eq_body (by decide +kernel)
  have hreached := hstart.compileInChild .steady rfl hroot "first"
  have hlive := hsane.isLive_compileInChild .steady fitsIn_smallScript hroot "first"
  obtain ⟨first, w₁, hrun⟩ := exists_compileInChild_small hsane hroot "first"
  have hstamps := hstart.stamps hfits rfl hscope hrun
  rw [hrun] at hreached hlive
  simp only [hrun]
  -- The second scope is a new one below the root, which is still live.
  obtain ⟨sc, hsc⟩ := Option.isSome_iff_exists.mp hlive
  obtain ⟨t, hsane₁⟩ := hreached.sane hfits
  obtain ⟨script, w₃, hagain⟩ := exists_compileInChild_small hsane₁ hlive "second"
  rw [run_compileInChild hsc] at hagain
  have hfresh := isFresh_grown hsc "second"
  rw [Attempt.run_newScope hsc "second"]
  have hsecond := hreached.grown hsc "second"
  obtain ⟨hnone, hreuses⟩ := hsecond.uses_again hfits rfl hfresh hstamps hagain
  rw [hphases] at hreuses
  exact ⟨hfresh, compileScript_incremental hfits hsecond rfl .steady hfresh, script, w₃, hagain,
    hnone, hreuses⟩

end Cache

end ScriptPlugins
