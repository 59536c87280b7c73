import ScriptPlugins.Proofs.Scope.Exporting
import ScriptPlugins.Proofs.Scope.Visibility

/-!
# Loading a unit — whose class is loaded, and what a failed load leaves

Metadata is checked before anything is exported, and an export is all or none.  Then the name of the
unit is looked up from the scope, though, and not in the directory.  If the directory holds a class
of that name, one of these is found, and the load is all or none, too.  If it holds none, the
directory stays exported, and what the name stood for before is answered as the class of the unit.
-/

namespace ScriptPlugins

open FileTree

variable {k : UnitKey} {w w' : World} {scope : Nat} {m : Metadata}

/-! ## 1. What a load asks for -/

/-- Metadata that was written for the unit. -/
structure UnitKey.Matches (k : UnitKey) (m : Metadata) : Prop where
  className : m.className = k.className
  phase : m.phase = k.phase
  kind : m.kind = k.kind
  contentHash : m.contentHash = k.contentHash

theorem UnitKey.check_eq_ok_iff : k.check m = .ok () ↔ k.Matches m := by
  rw [UnitKey.check]
  constructor
  · intro h
    split at h
    · cases h
    next hclass =>
      split at h
      · cases h
      next hkind =>
        split at h
        · cases h
        next hhash =>
          obtain ⟨hphase, hkind⟩ := not_or.mp hkind
          exact ⟨not_not.mp hclass, not_not.mp hphase, not_not.mp hkind, not_not.mp hhash⟩
  · rintro ⟨hclass, hphase, hkind, hhash⟩
    rw [if_neg (not_not.mpr hclass), if_neg (not_or.mpr ⟨not_not.mpr hphase, not_not.mpr hkind⟩),
      if_neg (not_not.mpr hhash)]

/-- The unit that is loaded with a class. -/
def Metadata.unitOf (m : Metadata) (scope : Nat) (c : CompiledClass) : LoadedUnit :=
  ⟨c, m.contentHash, m.runDoesSomething, m.hasMethods, m.notes, scope⟩

/-- A class file of the unit's directory holds that class, and it has the name of the unit. -/
def UnitKey.Stores (k : UnitKey) (t : FileTree) (c : CompiledClass) : Prop :=
  c.name = k.className ∧ ∃ file, t.Holds k.classesDir file c

/-- Why a load is refused before it exports anything. -/
inductive LoadRefusal (w : World) (k : UnitKey) (scope : Nat) : LoadError → Prop
  | unreadable {e : LoadError} (he : w.files.readMetadata k.metadataDir = .error e) :
      LoadRefusal w k scope e
  | mismatch {m : Metadata} {e : LoadError} (hm : w.files.readMetadata k.metadataDir = .ok m)
      (he : k.check m = .error e) : LoadRefusal w k scope e
  | refused {m : Metadata} {e : ScopeError} (hm : w.files.readMetadata k.metadataDir = .ok m)
      (hmatches : k.Matches m) (he : ExportRefusal w scope k.classesDir e) :
      LoadRefusal w k scope (.scope e)

/-- The world after a directory was exported, whose scope took it. -/
def World.Exports (w : World) (scope : Nat) (dir : Path) (w' : World) : Prop :=
  (∃ names, Job.run (exportDirectory scope dir).run w = (.ok names, w')) ∧
    ∃ s s' count, w.scopes.scope? scope = some s ∧ s.locked = false ∧ s.Takes w.files dir s' ∧
      w' = { w with
        scopes := w.scopes.set scope s'
        log := w.log ++ [.directoryExported s.name dir.text count] }

theorem World.Exports.files {dir : Path} (h : w.Exports scope dir w') : w'.files = w.files := by
  obtain ⟨-, s, s', count, -, -, -, rfl⟩ := h
  rfl

/-! ## 2. The course of a load -/

section
variable (hm : w.files.readMetadata k.metadataDir = .ok m) (hmatches : k.Matches m)
include hm hmatches

/-- A load whose metadata matches goes on with the export. -/
theorem run_load_matching : Job.run (k.load scope).run w =
    Job.run (do
      discard <| Attempt.adapt LoadError.scope (exportDirectory scope k.classesDir)
      let scopes ← Attempt.scopes
      let compiled ← Attempt.of ((scopes.resolve scope k.className).mapError LoadError.scope)
      return m.unitOf scope compiled : Attempt LoadError LoadedUnit).run w := by
  have hcheck : k.check m = .ok () := UnitKey.check_eq_ok_iff.mpr hmatches
  rw [UnitKey.load, Attempt.run_bind_ok (Attempt.run_files w),
    Attempt.run_bind_ok (Attempt.run_of hm w), Attempt.run_bind_ok (Attempt.run_of hcheck w)]
  rfl

/-- After the export the name of the unit is looked up. -/
theorem run_load_exported {names : List String}
    (he : Job.run (exportDirectory scope k.classesDir).run w = (.ok names, w')) :
    Job.run (k.load scope).run w =
      (((w'.scopes.resolve scope k.className).mapError LoadError.scope).map (m.unitOf scope),
        w') := by
  have hexport : Job.run (discard (Attempt.adapt LoadError.scope
      (exportDirectory scope k.classesDir))).run w = (.ok (), w') :=
    Attempt.run_bind_ok (Attempt.run_adapt he)
  rw [run_load_matching hm hmatches, Attempt.run_bind_ok hexport,
    Attempt.run_bind_ok (Attempt.run_scopes w')]
  cases w'.scopes.resolve scope k.className <;> rfl

end

/-- A refusal is answered, and nothing is done. -/
theorem LoadRefusal.run {e : LoadError} (h : LoadRefusal w k scope e) :
    Job.run (k.load scope).run w = (.error e, w) := by
  cases h with
  | unreadable he =>
    rw [UnitKey.load, Attempt.run_bind_ok (Attempt.run_files w),
      Attempt.run_bind_error (Attempt.run_of he w)]
  | @mismatch m _ hm he =>
    rw [UnitKey.load, Attempt.run_bind_ok (Attempt.run_files w),
      Attempt.run_bind_ok (Attempt.run_of hm w), Attempt.run_bind_error (Attempt.run_of he w)]
  | @refused m e hm hmatches he =>
    have hexport : Job.run (discard (Attempt.adapt LoadError.scope
        (exportDirectory scope k.classesDir))).run w = (.error (.scope e), w) :=
      Attempt.run_bind_error (Attempt.run_adapt he.run)
    rw [run_load_matching hm hmatches, Attempt.run_bind_error hexport]

/-- What the name of a unit stands for once its directory is exported: a class of that name in the
directory if there is one, and else what it stood for before. -/
theorem resolve_exported_cases (hsound : w.scopes.Sound) (h : w.Exports scope k.classesDir w') :
    (∃ c, k.Stores w.files c ∧ w'.scopes.resolve scope k.className = .ok c) ∨
      (∀ c, ¬k.Stores w.files c) ∧
        w'.scopes.resolve scope k.className = w.scopes.resolve scope k.className := by
  obtain ⟨-, s, s', count, hs, -, htakes, rfl⟩ := h
  have hlinks : s'.links = s.links := by rw [htakes.others]; rfl
  by_cases hstores : ∃ c, k.Stores w.files c
  · -- The scope comes before its ancestors, so what it took is found, whatever they export.
    obtain ⟨c, hn, file, hc⟩ := hstores
    obtain ⟨file', c', hc', hn', hget⟩ := htakes.covers file c hc
    have hset : (w.scopes.set scope s').scope? scope = some s' := by
      rw [ScopeTree.scope?_set (ScopeTree.lt_of_scope? hs), if_pos rfl]
    exact .inl ⟨c', ⟨hn'.trans hn, file', hc'⟩,
      (hsound.set hs hlinks).resolve_exported hset (hn ▸ hget)⟩
  · have hnot : ∀ c, ¬k.Stores w.files c := fun c hc => hstores ⟨c, hc⟩
    -- The name is none of those that the scope took, so the scope still says the same of it.
    refine .inr ⟨hnot, hsound.resolve_set_same hs hlinks (by rw [htakes.others]) ?_⟩
    cases hget : s'.classes[k.className]? with
    | none =>
      cases hold : s.classes[k.className]? with
      | none => rfl
      | some c => rw [htakes.kept _ c hold] at hget; cases hget
    | some c =>
      obtain hold | ⟨file, hc, hn⟩ := htakes.only _ c hget
      · exact hold.symm
      · exact absurd ⟨hn, file, hc⟩ (hnot c)

/-- All that a load can do. -/
theorem load_cases (k : UnitKey) (w : World) (scope : Nat) :
    (∃ e, LoadRefusal w k scope e) ∨
      ∃ m w', w.files.readMetadata k.metadataDir = .ok m ∧ k.Matches m ∧
        w.Exports scope k.classesDir w' ∧
        Job.run (k.load scope).run w =
          (((w'.scopes.resolve scope k.className).mapError LoadError.scope).map (m.unitOf scope),
            w') := by
  cases hm : w.files.readMetadata k.metadataDir with
  | error e => exact .inl ⟨e, .unreadable hm⟩
  | ok m =>
    cases hc : k.check m with
    | error e => exact .inl ⟨e, .mismatch hm hc⟩
    | ok u =>
      have hmatches : k.Matches m := UnitKey.check_eq_ok_iff.mp hc
      rcases exportDirectory_cases w scope k.classesDir with ⟨e, he⟩ | ⟨s, cs, hs, hopen, hcs, hnew⟩
      · exact .inl ⟨_, .refused hm hmatches he⟩
      · have hrun := run_exportDirectory hs hopen hcs hnew
        have htakes := Scope.takes_taking hcs hnew
        exact .inr ⟨m, _, rfl, hmatches, ⟨⟨_, hrun⟩, s, _, cs.length, hs, hopen, htakes, rfl⟩,
          run_load_exported hm hmatches hrun⟩

theorem run_load_eq_error (hsound : w.scopes.Sound) {e : LoadError}
    (h : Job.run (k.load scope).run w = (.error e, w')) :
    w' = w ∧ LoadRefusal w k scope e ∨
      w.Exports scope k.classesDir w' ∧ (∀ c, ¬k.Stores w.files c) ∧
        ∃ s, w.scopes.scope? scope = some s ∧ e = .scope (.classNotFound s.name k.className) ∧
          w.scopes.resolve scope k.className = .error (.classNotFound s.name k.className) := by
  rcases load_cases k w scope with ⟨e', he⟩ | ⟨m, w₁, -, -, hexports, hrun⟩
  · cases h.symm.trans he.run
    exact .inl ⟨rfl, he⟩
  · -- The directory is exported by now, so it is the lookup that failed.
    obtain ⟨hresult, rfl⟩ := Prod.mk.inj (h.symm.trans hrun)
    obtain ⟨cause, hcause, rfl⟩ := mapError_eq_error (map_eq_error hresult.symm)
    rcases resolve_exported_cases hsound hexports with ⟨c, -, hc⟩ | ⟨hnot, hsame⟩
    · cases hcause.symm.trans hc
    · obtain ⟨s, _, _, hs, -⟩ := hexports.2
      rw [hsame] at hcause
      rcases hsound.resolve_cases hs k.className with ⟨c, hc⟩ | hnone
      · cases hcause.symm.trans hc
      · cases hcause.symm.trans hnone
        exact .inr ⟨hexports, hnot, s, hs, rfl, hnone⟩

theorem run_load_eq_ok (hsound : w.scopes.Sound) {l : LoadedUnit}
    (h : Job.run (k.load scope).run w = (.ok l, w')) :
    (∃ m, w.files.readMetadata k.metadataDir = .ok m ∧ k.Matches m ∧
      l = m.unitOf scope l.compiled) ∧ w.Exports scope k.classesDir w' ∧
      (k.Stores w.files l.compiled ∨
        (∀ c, ¬k.Stores w.files c) ∧ w.scopes.resolve scope k.className = .ok l.compiled) := by
  rcases load_cases k w scope with ⟨e, he⟩ | ⟨m, w₁, hm, hmatches, hexports, hrun⟩
  · cases h.symm.trans he.run
  · obtain ⟨hresult, rfl⟩ := Prod.mk.inj (h.symm.trans hrun)
    obtain ⟨c, hc, rfl⟩ := map_eq_ok hresult.symm
    have hresolve := mapError_eq_ok hc
    refine ⟨⟨m, hm, hmatches, rfl⟩, hexports, ?_⟩
    rcases resolve_exported_cases hsound hexports with ⟨c', hstores, hc'⟩ | ⟨hnot, hsame⟩
    · cases hresolve.symm.trans hc'
      exact .inl hstores
    · exact .inr ⟨hnot, hsame.symm.trans hresolve⟩

/-- What it takes for a load to answer. -/
theorem exists_run_load_iff (hsound : w.scopes.Sound) :
    (∃ l w', Job.run (k.load scope).run w = (.ok l, w')) ↔
      (∃ m, w.files.readMetadata k.metadataDir = .ok m ∧ k.Matches m) ∧
      (∃ w', w.Exports scope k.classesDir w') ∧
      ((∃ c, k.Stores w.files c) ∨ ∃ c, w.scopes.resolve scope k.className = .ok c) := by
  constructor
  · rintro ⟨l, w', h⟩
    obtain ⟨⟨m, hm, hmatches, -⟩, hexports, hclass⟩ := run_load_eq_ok hsound h
    exact ⟨⟨m, hm, hmatches⟩, ⟨w', hexports⟩, hclass.imp (⟨_, ·⟩) fun h => ⟨_, h.2⟩⟩
  · rintro ⟨⟨m, hm, hmatches⟩, ⟨w', hexports⟩, hclass⟩
    obtain ⟨names, hrun⟩ := hexports.1
    have hload := run_load_exported hm hmatches hrun
    suffices hfound : ∃ c, w'.scopes.resolve scope k.className = .ok c by
      obtain ⟨c, hc⟩ := hfound
      rw [hc] at hload
      exact ⟨_, w', hload⟩
    rcases resolve_exported_cases hsound hexports with ⟨c, -, hc⟩ | ⟨hnot, hsame⟩
    · exact ⟨c, hc⟩
    · rw [hsame]
      exact hclass.resolve_left fun ⟨c, hc⟩ => hnot c hc

/-! ## 3. All or none, and whose class -/

/-- **What a load leaves, and whose class it answers.**  In whatever tree of scopes, a load changes
no file.  One that fails has changed nothing at all, unless the scope took the directory and the
directory holds no class of the unit's name, nor does the name stand for anything in the scope.  One
that answers has found metadata with the name, phase, kind and hash of the unit; the scope took the
directory, and the class is one that the directory holds under the unit's name or, if it holds none,
what the name stood for in the scope before.  So a load from a directory that holds a class of the
unit's name is all or none and answers such a class.  It answers exactly if the metadata matches,
the directory can be exported, and there is a class of either kind. -/
theorem load_all_or_none (u : World) (root : String) (calls : List ScopeTree.Call) (k : UnitKey)
    (scope : Nat) :
    let w : World := { u with scopes := (ScopeTree.root root).afterAll calls }
    (∀ r w', Job.run (k.load scope).run w = (r, w') → w'.files = w.files) ∧
    (∀ e w', Job.run (k.load scope).run w = (.error e, w') →
      w' = w ∧ LoadRefusal w k scope e ∨
      w.Exports scope k.classesDir w' ∧ (∀ c, ¬k.Stores w.files c) ∧
        ∃ s, w.scopes.scope? scope = some s ∧ e = .scope (.classNotFound s.name k.className) ∧
          w.scopes.resolve scope k.className = .error (.classNotFound s.name k.className)) ∧
    (∀ l w', Job.run (k.load scope).run w = (.ok l, w') →
      (∃ m, w.files.readMetadata k.metadataDir = .ok m ∧ k.Matches m ∧
        l = m.unitOf scope l.compiled) ∧
      w.Exports scope k.classesDir w' ∧
      (k.Stores w.files l.compiled ∨
        (∀ c, ¬k.Stores w.files c) ∧ w.scopes.resolve scope k.className = .ok l.compiled)) ∧
    ((∃ c, k.Stores w.files c) →
      (∀ e w', Job.run (k.load scope).run w = (.error e, w') → w' = w) ∧
      ∀ l w', Job.run (k.load scope).run w = (.ok l, w') → k.Stores w.files l.compiled) ∧
    ((∃ l w', Job.run (k.load scope).run w = (.ok l, w')) ↔
      (∃ m, w.files.readMetadata k.metadataDir = .ok m ∧ k.Matches m) ∧
      (∃ w', w.Exports scope k.classesDir w') ∧
      ((∃ c, k.Stores w.files c) ∨ ∃ c, w.scopes.resolve scope k.className = .ok c)) := by
  intro w
  have hsound : w.scopes.Sound := (ScopeTree.sound_root root).afterAll calls
  refine ⟨fun r w' h => ?_, fun e w' h => run_load_eq_error hsound h,
    fun l w' h => run_load_eq_ok hsound h, fun ⟨c, hc⟩ => ⟨fun e w' h => ?_, fun l w' h => ?_⟩,
    exists_run_load_iff hsound⟩
  · cases r with
    | error e =>
      rcases run_load_eq_error hsound h with ⟨rfl, -⟩ | ⟨hexports, -⟩
      · rfl
      · exact hexports.files
    | ok l => exact (run_load_eq_ok hsound h).2.1.files
  · -- A load that fails behind its export lacks the class, which is stored here.
    rcases run_load_eq_error hsound h with ⟨he, -⟩ | ⟨-, hnot, -⟩
    · exact he
    · exact absurd hc (hnot c)
  · exact (run_load_eq_ok hsound h).2.2.resolve_right fun hnot => hnot.1 c hc

end ScriptPlugins
