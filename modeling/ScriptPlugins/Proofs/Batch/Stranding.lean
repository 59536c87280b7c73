import ScriptPlugins.Batch.Output
import ScriptPlugins.Batch.Schedule
import ScriptPlugins.Proofs.Job.Using

/-!
# Stranding — a session that fails leaves its scope behind

A batch, and whoever opens the output of a build, first makes a scope below the root of the session
and then does what may fail.  From then on only this one scope is changed, and nobody releases it.
So a failure, which hands out no number to release it by, leaves exactly one more scope behind.
-/

namespace ScriptPlugins

open Attempt

variable {α ε : Type} {id root : Nat} {w w' : World} {s : Scope}

/-! ## 1. Changes of one scope -/

namespace Scope

/-- What a scope is called and where it stands. -/
def seat (s : Scope) : String × Option Nat × List Nat := (s.name, s.links)

theorem Revised.seat {s s' : Scope} (h : s.Revised s') : s'.seat = s.seat := by
  cases h <;> rfl

end Scope

namespace ScopeTree

variable {t t' t'' : ScopeTree}

/-- A tree in which one scope may be locked, used more or export more. -/
structure Revises (id : Nat) (t t' : ScopeTree) : Prop where
  size : t'.slots.length = t.slots.length
  others : ∀ i, i ≠ id → t'.scope? i = t.scope? i
  this : (t'.scope? id).map Scope.seat = (t.scope? id).map Scope.seat

namespace Revises

theorem refl (id : Nat) (t : ScopeTree) : Revises id t t := ⟨rfl, fun _ _ => rfl, rfl⟩

theorem trans (h : Revises id t t') (h' : Revises id t' t'') : Revises id t t'' :=
  ⟨h'.size.trans h.size, fun i hi => (h'.others i hi).trans (h.others i hi), h'.this.trans h.this⟩

theorem set {s' : Scope} (hs : t.scope? id = some s) (h : s.Revised s') :
    Revises id t (t.set id s') := by
  refine ⟨length_set .., fun i hi => ?_, ?_⟩
  · rw [scope?_set (lt_of_scope? hs), if_neg hi]
  · rw [scope?_set (lt_of_scope? hs), if_pos rfl, hs, Option.map_some, Option.map_some, h.seat]

end Revises

/-- A tree that has one more scope, the last one, which stands below a live one and has no
children. -/
structure Strands (root : Nat) (s : Scope) (name : String) (t t' : ScopeTree) : Prop where
  size : t'.slots.length = t.slots.length + 1
  child : ∃ c, t'.scope? t.slots.length = some c ∧ c.name = name ∧ c.parent = some root ∧
    c.children = []
  parent : t'.scope? root = some { s with children := s.children ++ [t.slots.length] }
  others : ∀ i, i ≠ t.slots.length → i ≠ root → t'.scope? i = t.scope? i

/-- Whatever becomes of a new child, it is there. -/
theorem Revises.strands {name : String} (hs : t.scope? root = some s)
    (h : Revises t.slots.length (t.grown root s name) t') : Strands root s name t t' := by
  have hroot : root ≠ t.slots.length := Nat.ne_of_lt (lt_of_scope? hs)
  have hthis := h.this
  rw [scope?_grown_new hs, Option.map_some] at hthis
  obtain ⟨c, hc, hseat⟩ := Option.map_eq_some_iff.mp hthis
  obtain ⟨hname, hlinks⟩ := Prod.mk.inj hseat
  obtain ⟨hparent, hchildren⟩ := Prod.mk.inj hlinks
  refine ⟨h.size.trans (length_grown ..), ⟨c, hc, hname, hparent, hchildren⟩, ?_,
    fun i hi hi' => ?_⟩
  · rw [h.others root hroot, scope?_grown hs, if_neg hroot, if_pos rfl]
  · rw [h.others i hi, scope?_grown hs, if_neg hi, if_neg hi']

end ScopeTree

/-- An operation that changes no scope but one, and leaves that one where it is. -/
inductive Op.KeepsTo (id : Nat) : Op → Prop
  | observe : KeepsTo id .observe
  | change (c : FileChange) : KeepsTo id (.change c)
  | openRegister : KeepsTo id .openRegister
  | register (dir : Path) : KeepsTo id (.register dir)
  | report (e : Log.Event) : KeepsTo id (.report e)
  | lock : KeepsTo id (.alter (.lock id))
  | reuse : KeepsTo id (.alter (.reuse id))
  | exportAll (dir : Path) (cs : List CompiledClass) : KeepsTo id (.alter (.exportAll id dir cs))

theorem Op.KeepsTo.perform {op : Op} (h : op.KeepsTo id) (w : World) :
    w.scopes.Revises id (op.perform w).2.scopes := by
  have halter {c : ScopeTree.Change}
      (hc : ∀ t', w.scopes.apply c = .ok t' → w.scopes.Revises id t') :
      w.scopes.Revises id ((Op.alter c).perform w).2.scopes := by
    rw [Op.perform]
    split
    next t' ht' => exact hc t' ht'
    next => exact .refl id _
  cases h with
  | observe => exact .refl id _
  | change c => exact .refl id _
  | openRegister => exact .refl id _
  | register dir => exact .refl id _
  | report e => exact .refl id _
  | lock =>
    refine halter fun t' ht' => ?_
    obtain ⟨s, hs, rfl⟩ := ScopeTree.modify_eq_ok ht'
    exact .set hs .locked
  | reuse =>
    refine halter fun t' ht' => ?_
    obtain ⟨s, hs, rfl⟩ := ScopeTree.modify_eq_ok ht'
    exact .set hs .reused
  | exportAll dir cs =>
    refine halter fun t' ht' => ?_
    obtain ⟨s, hs, hopen, hnew, rfl⟩ := ScopeTree.exportAll_eq_ok ht'
    exact .set hs (.exportedAll dir cs hopen hnew)

/-! ## 2. What a session does with its scope -/

section Uses

theorem uses_report (e : Log.Event) : Uses (Op.KeepsTo id) (Attempt.report e : Attempt ε PUnit) :=
  .perform (.report e)

theorem uses_files : Uses (Op.KeepsTo id) (Attempt.files : Attempt ε FileTree) :=
  .map (.perform .observe)

theorem uses_scopes : Uses (Op.KeepsTo id) (Attempt.scopes : Attempt ε ScopeTree) :=
  .map (.perform .observe)

theorem uses_change (c : FileChange) (refused : FileError → ε) :
    Uses (Op.KeepsTo id) (Attempt.change refused c) := .change (.change c) refused

theorem uses_lockScope : Uses (Op.KeepsTo id) (lockScope id) :=
  uses_scopes.bind fun _ => (Uses.of _).bind fun s => (Uses.alter .lock _).bind fun _ => by
    split
    · exact .pure _
    · exact uses_report _

theorem uses_reuseScope : Uses (Op.KeepsTo id) (reuseScope id) :=
  (Uses.alter .reuse _).bind fun _ => uses_scopes.bind fun _ =>
    (Uses.of _).bind fun _ => uses_report _

theorem uses_exportDirectory (dir : Path) : Uses (Op.KeepsTo id) (exportDirectory id dir) :=
  uses_scopes.bind fun _ => (Uses.of _).map.bind fun _ => uses_files.bind fun _ =>
    (Uses.of _).bind fun _ => (Uses.alter (.exportAll dir _) _).bind fun _ =>
    (uses_report _).bind fun _ => .pure _

theorem uses_removeIfThere (dir : Path) : Uses (Op.KeepsTo id) (removeIfThere dir) := by
  refine Uses.bind (uses_change _ _).outcome fun reply => ?_
  split
  · exact .pure _
  · exact .pure _
  · exact .throw _

theorem uses_resetDirectory (dir : Path) : Uses (Op.KeepsTo id) (resetDirectory dir) :=
  (uses_removeIfThere dir).bind fun _ => uses_change _ _

theorem uses_compile (k : UnitKey) (hook : Hook) (source : String) :
    Uses (Op.KeepsTo id) (k.compile hook source) := by
  have hclass (c : CompiledClass) : Uses (Op.KeepsTo id) (writeClass k.classesDir c) :=
    (uses_change _ _).bind fun _ => (uses_change _ _).bind fun _ => .pure _
  have hmetadata (m : Metadata) : Uses (Op.KeepsTo id) (writeMetadata k.metadataDir m) :=
    (uses_change _ _).bind fun _ => uses_change _ _
  exact (Uses.of _).bind fun _ => (Uses.perform .observe).bind fun _ =>
      (hclass _).adapt.map.bind fun _ =>
    (hmetadata _).adapt.bind fun _ => uses_report _

theorem uses_load (k : UnitKey) : Uses (Op.KeepsTo id) (k.load id) :=
  uses_files.bind fun _ => (Uses.of _).bind fun _ => (Uses.of _).bind fun _ =>
    (uses_exportDirectory _).adapt.map.bind fun _ => uses_scopes.bind fun _ =>
    (Uses.of _).bind fun _ => .pure _

theorem uses_compileEntry (c : Cache) (compiler : Compiler) (s : Script) (phase : Phase) :
    Uses (Op.KeepsTo id) (c.compileEntry compiler s phase) := by
  rw [Cache.compileEntry]
  split
  · exact .throw _
  · exact (uses_compile _ _ _).adapt.bind fun _ => uses_report _

theorem uses_refresh (c : Cache) (compiler : Compiler) (s : Script) (phase : Phase) :
    Uses (Op.KeepsTo id) (c.refresh compiler s phase) := by
  have hcompile : Uses (Op.KeepsTo id) (c.compileEntry compiler s phase) :=
    uses_compileEntry c compiler s phase
  have hremove : Uses (Op.KeepsTo id) (c.remove (s.classNameOf phase)) :=
    (uses_removeIfThere _).bind fun _ => uses_removeIfThere _
  refine uses_files.bind fun _ => (Uses.of _).bind fun freshness => ?_
  split
  · exact (uses_report _).bind fun _ => .pure _
  · exact hcompile.bind fun _ => .pure _
  · exact (uses_report _).bind fun _ => hremove.bind fun _ => hcompile.bind fun _ => .pure _

theorem uses_compilePhase (c : Cache) (compiler : Compiler) (s : Script) (phase : Phase) :
    Uses (Op.KeepsTo id) (c.compilePhase compiler s id phase) := by
  refine (uses_refresh c compiler s phase).bind fun compiled =>
      (Uses.perform (.register _)).bind fun _ =>
    (uses_load _).adapt.bind fun _ => ?_
  cases compiled with
  | true => exact .pure _
  | false => exact uses_reuseScope.adapt.bind fun _ => .pure _

/-- A script exports to the scope of its batch, and makes, releases and moves none. -/
theorem uses_compileScript (p : Precompiler) (s : Script) :
    Uses (Op.KeepsTo id) (p.compileScript id s) := by
  have hpreamble : Uses (Op.KeepsTo id) (p.layout.cache.compilePreamble p.compiler s id) := by
    rw [Cache.compilePreamble]
    split
    · exact (uses_compilePhase ..).bind fun _ => .pure _
    · exact .pure _
  have hcache : Uses (Op.KeepsTo id) (p.layout.cache.compileScript p.compiler s id) :=
    hpreamble.bind fun _ => (uses_compilePhase ..).bind fun _ => .pure _
  have hgenerate (a : Adapter) : Uses (Op.KeepsTo id) (a.generate p.layout.adapters) :=
    (uses_change _ _).bind fun _ => (uses_change _ _).bind fun _ =>
      (uses_report _).bind fun _ => .pure _
  exact hcache.bind fun _ => (hgenerate _).bind fun _ => .pure _

theorem uses_package (dirs : List Path) (metadataRoot dest : Path) :
    Uses (Op.KeepsTo id) (package dirs metadataRoot dest) := by
  have hentry (target : Path) (e : Entry) : Uses (Op.KeepsTo id) (copyEntry target e) := by
    cases e with
    | directory => exact (uses_change _ _).bind fun _ => .pure _
    | file bytes =>
      have hwrite : Uses (Op.KeepsTo id) (do
          Attempt.change (.files target) (.writeFile target bytes)
          return 1 : Attempt BuildError Nat) := (uses_change _ _).bind fun _ => .pure _
      rw [copyEntry]
      split
      · exact (uses_change _ _).bind fun _ => hwrite
      · exact (Uses.pure ()).bind fun _ => hwrite
  have htree (source dest : Path) : Uses (Op.KeepsTo id) (copyTree source dest) :=
    uses_files.bind fun _ => (Uses.of _).bind fun _ =>
        (Uses.mapM fun x _ => hentry _ x.2).bind fun _ =>
      .pure _
  have hreport (copied : Nat) : Uses (Op.KeepsTo id) (do
      Attempt.report (.packaged dest.text copied)
      return copied : Attempt BuildError Nat) := (uses_report _).bind fun _ => .pure _
  refine (Uses.mapM fun _ _ => htree _ _).bind fun _ => uses_files.bind fun _ => ?_
  split
  · exact (htree _ _).bind fun _ => hreport _
  · exact (Uses.pure 0).bind fun _ => hreport _

/-- What comes after all scripts locks the scope of the batch. -/
theorem uses_closing (p : Precompiler) (reports : List ScriptReport) :
    Uses (Op.KeepsTo id) (p.closing id reports) := by
  have hend (r : BatchReport) : Uses (Op.KeepsTo id) (Precompiler.reportEnd r) :=
    (Uses.forIn (fun _ _ => (uses_report _).bind fun _ => .pure _) _).bind fun _ => uses_report _
  exact uses_lockScope.adapt.bind fun _ => (Uses.perform .observe).bind fun _ =>
    (uses_package _ _ _).bind fun _ => (hend _).bind fun _ => .pure _

end Uses

/-! ## 3. Sessions -/

/-- A session has a scope of its own, unless the scope that it is to stand below is gone.  Whatever
it answers, it changes no other scope. -/
theorem of_run_session {name : String} {x : Nat → Attempt BuildError α} {r : Except BuildError α}
    (hx : ∀ id, Uses (Op.KeepsTo id) (x id))
    (h : Job.run (Attempt.adapt .scope (newScope root name) >>= x).run w = (r, w')) :
    (w.scopes.scope? root = none ∧ r = .error (.scope (.released root)) ∧ w' = w) ∨
      ∃ s, w.scopes.scope? root = some s ∧
        (w.scopes.grown root s name).Revises w.scopes.slots.length w'.scopes := by
  cases hs : w.scopes.scope? root with
  | none =>
    rw [run_bind_error (run_adapt (run_newScope_of_gone hs name))] at h
    obtain ⟨rfl, rfl⟩ := Prod.mk.inj h
    exact .inl ⟨rfl, rfl, rfl⟩
  | some s =>
    rw [run_bind_ok (run_adapt (run_newScope hs name))] at h
    have hkeeps := (hx w.scopes.slots.length).keeps
      (I := fun u => (w.scopes.grown root s name).Revises w.scopes.slots.length u.scopes)
      (w := { w with
        scopes := w.scopes.grown root s name, log := w.log ++ [.scopeCreated name root] })
      (fun op u hop hu => hu.trans (hop.perform u)) (.refl _ _)
    rw [h] at hkeeps
    exact .inr ⟨s, rfl, hkeeps⟩

namespace Precompiler

variable {p : Precompiler} {scripts : List Script} {scope : Nat} {w₀ : World}

/-- What comes before any script. -/
theorem of_opening {r : Except BuildError Nat}
    (h : Job.run (p.opening root scripts).run w = (r, w')) :
    (w.scopes.scope? root = none ∧ r = .error (.scope (.released root)) ∧ w' = w) ∨
      ∃ s, w.scopes.scope? root = some s ∧
        (w.scopes.grown root s batchScopeName).Revises w.scopes.slots.length w'.scopes := by
  refine of_run_session (fun id => ?_) h
  have hreset : Uses (Op.KeepsTo id) p.resetOutput :=
    (uses_resetDirectory _).bind fun _ => uses_resetDirectory _
  exact (Uses.perform .openRegister).bind fun _ => hreset.bind fun _ => uses_scopes.bind fun _ =>
    (Uses.of _).bind fun _ => (uses_report _).bind fun _ => .pure _

/-- A batch that opens has the next number for its scope. -/
theorem scope_of_opening (h : Job.run (p.opening root scripts).run w = (.ok scope, w₀)) :
    scope = w.scopes.slots.length := by
  obtain ⟨scope', w₁, hnew, h⟩ := of_run_bind_ok h
  obtain ⟨_, w₂, hregister, h⟩ := of_run_bind_ok h
  obtain ⟨_, w₃, hreset, h⟩ := of_run_bind_ok h
  obtain ⟨scopes, w₄, hscopes, h⟩ := of_run_bind_ok h
  obtain ⟨path, w₅, hpath, h⟩ := of_run_bind_ok h
  obtain ⟨_, w₆, hreport, h⟩ := of_run_bind_ok h
  have hscope : scope' = scope := Except.ok.inj (Prod.mk.inj h).1
  cases hs : w.scopes.scope? root with
  | none =>
    rw [run_adapt (run_newScope_of_gone hs batchScopeName)] at hnew
    cases hnew
  | some s =>
    rw [run_adapt (run_newScope hs batchScopeName)] at hnew
    exact hscope.symm.trans (Except.ok.inj (Prod.mk.inj hnew).1).symm

/-- A batch changes no scope but its own, whatever the schedule and however it ends. -/
theorem Schedules.revises {r : Except BuildError BatchReport}
    (h : p.Schedules root scripts w r w') : (w.scopes.scope? root = none ∧ w' = w) ∨
      ∃ s, w.scopes.scope? root = some s ∧
        (w.scopes.grown root s batchScopeName).Revises w.scopes.slots.length w'.scopes := by
  cases h with
  | refused hopen => exact (of_opening hopen).imp_left fun h => ⟨h.1, h.2.2⟩
  | @finished scope w₀ q hopen hsteps hover =>
    obtain rfl := scope_of_opening hopen
    rcases of_opening hopen with ⟨-, hr, -⟩ | ⟨s, hs, hopened⟩
    · cases hr
    · refine .inr ⟨s, hs, ?_⟩
      -- Neither the workers nor what comes after them changes another scope.
      have hpool : (w.scopes.grown root s batchScopeName).Revises w.scopes.slots.length
          q.world.scopes := by
        refine hsteps.keeps (P := Op.KeepsTo w.scopes.slots.length)
          (I := fun u =>
            (w.scopes.grown root s batchScopeName).Revises w.scopes.slots.length u.scopes)
          (fun op u hop hu => hu.trans (hop.perform u)) (fun _ _ hu => hu) (fun j hj => ?_) hopened
        rw [Pool.jobs_queue] at hj
        obtain ⟨⟨i, s⟩, -, rfl⟩ := List.mem_map.mp hj
        exact uses_compileScript p s
      exact (uses_closing p _).keeps
        (I := fun u =>
          (w.scopes.grown root s batchScopeName).Revises w.scopes.slots.length u.scopes)
        (fun op u hop hu => hu.trans (hop.perform u)) hpool

end Precompiler

/-- Whoever opens the output of a build changes no scope but a new one. -/
theorem BuildLayout.of_openOutput {b : BuildLayout} {r : Except BuildError Nat}
    (h : Job.run (b.openOutput root).run w = (r, w')) :
    (w.scopes.scope? root = none ∧ r = .error (.scope (.released root)) ∧ w' = w) ∨
      ∃ s, w.scopes.scope? root = some s ∧
        (w.scopes.grown root s outputScopeName).Revises w.scopes.slots.length w'.scopes := by
  refine of_run_session (fun id => ?_) h
  have hlock : Uses (Op.KeepsTo id) (do
      Attempt.adapt .scope (lockScope id)
      return id : Attempt BuildError Nat) := uses_lockScope.adapt.bind fun _ => .pure _
  refine uses_files.bind fun _ => ?_
  split
  · exact (uses_exportDirectory _).adapt.map.bind fun _ => hlock
  · exact (uses_report _).bind fun _ => hlock

/-- **A session that fails leaves its scope behind.**  If a batch fails, on any schedule of its
workers, or if the output of a build cannot be opened, and the root of the session is live, then
whatever the files are and wherever the failure came from, one more scope is live than before: the
new child of the root, which nobody was told of.  All other scopes are as they were.  If the root
was released, nothing has changed. -/
theorem failed_sessions_strand (root : Nat) (w : World) :
    (∀ (p : Precompiler) scripts e w', p.Schedules root scripts w (.error e) w' →
      (w.scopes.scope? root = none ∧ w'.scopes = w.scopes) ∨
        ∃ s, w.scopes.scope? root = some s ∧ w.scopes.Strands root s batchScopeName w'.scopes) ∧
    ∀ (b : BuildLayout) e w', Job.run (b.openOutput root).run w = (.error e, w') →
      (w.scopes.scope? root = none ∧ w'.scopes = w.scopes) ∨
        ∃ s, w.scopes.scope? root = some s ∧ w.scopes.Strands root s outputScopeName w'.scopes := by
  refine ⟨fun p scripts e w' h => ?_, fun b e w' h => ?_⟩
  · rcases h.revises with ⟨hnone, rfl⟩ | ⟨s, hs, hrevises⟩
    · exact .inl ⟨hnone, rfl⟩
    · exact .inr ⟨s, hs, hrevises.strands hs⟩
  · rcases b.of_openOutput h with ⟨hnone, -, rfl⟩ | ⟨s, hs, hrevises⟩
    · exact .inl ⟨hnone, rfl⟩
    · exact .inr ⟨s, hs, hrevises.strands hs⟩

/-- A build with a file where its root is to be. -/
def blockedPrecompiler : Precompiler := ⟨⟨⟨"build"⟩⟩, ⟨fun _ _ => none⟩, 1⟩

/-- A world in which that file stands, and a live root. -/
def blockedWorld : World where
  files := (FileTree.empty []).put ["build"] (.file ⟨#[]⟩)
  scopes := .root rootScopeName
  registered := []
  log := []
  now := .sinceEpoch 0

/-- The theorem for a batch that fails before any script is compiled. -/
theorem failed_sessions_strand_blocked :
    ∃ e w' s, blockedPrecompiler.Schedules 0 [] blockedWorld (.error e) w' ∧
      blockedWorld.scopes.scope? 0 = some s ∧
        blockedWorld.scopes.Strands 0 s batchScopeName w'.scopes := by
  have hfails : (Job.run (blockedPrecompiler.opening 0 []).run blockedWorld).1.isOk = false := by
    decide +kernel
  obtain ⟨r, w', hrun⟩ : ∃ r w', Job.run (blockedPrecompiler.opening 0 []).run blockedWorld =
      (r, w') :=
    ⟨_, _, rfl⟩
  rw [hrun] at hfails
  cases r with
  | ok => cases hfails
  | error e =>
    have hfailed := Precompiler.Schedules.refused hrun
    rcases (failed_sessions_strand 0 blockedWorld).1 _ _ _ _ hfailed with
      ⟨hnone, -⟩ | ⟨s, hs, hstrands⟩
    · cases hnone
    · exact ⟨e, w', s, hfailed, hs, hstrands⟩

end ScriptPlugins
