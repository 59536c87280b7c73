import ScriptPlugins.Compile.Unit
import ScriptPlugins.Proofs.Compiled.Directories
import ScriptPlugins.Proofs.Job.Preserving
import ScriptPlugins.Proofs.Scope.Freezing

/-!
# Exporting a directory — all of its classes or none of them

A scope that refuses a directory stays as it is, and so does everything else.  One that takes a
directory exports the classes of its class files and keeps what it exported before.  Only those
names are asked for that the scope exported before, though: of several files whose classes have one
name, one class is exported and the others are not.
-/

namespace ScriptPlugins

open FileTree

/-- A scope that has taken the classes of a directory, too. -/
def Scope.taking (s : Scope) (dir : Path) (cs : List CompiledClass) : Scope :=
  { s with
    classes := cs.foldl (fun m c => m.insert c.name c) s.classes
    directories := s.directories ++ [dir] }

variable {w : World} {scope : Nat} {dir : Path} {s : Scope} {cs : List CompiledClass}

/-! ## 1. The course of an export -/

/-- An open scope goes on to read the directory. -/
theorem run_exportDirectory_open (h : w.scopes.scope? scope = some s) (hopen : s.locked = false)
    (dir : Path) : Job.run (exportDirectory scope dir).run w = Job.run (do
      let classes ← Attempt.of ((w.files.readClasses dir).mapError ScopeError.classFile)
      Attempt.alter id (.exportAll scope dir classes)
      Attempt.report (.directoryExported s.name dir.text classes.length)
      return classes.map CompiledClass.name : Attempt ScopeError (List String)).run w := by
  have hunlocked : Job.run (discard (Attempt.of
      (w.scopes.unlocked scope ScopeTree.exportingDirectory))).run w = (.ok (), w) := by
    rw [ScopeTree.unlocked_of_open h hopen]
    rfl
  rw [exportDirectory, Attempt.run_bind_ok (Attempt.run_scopes w), Attempt.run_bind_ok hunlocked,
    Attempt.run_bind_ok (Attempt.run_files w), h]
  rfl

/-- A scope that may not export is found before anything is read. -/
theorem run_exportDirectory_closed {e : ScopeError}
    (h : w.scopes.unlocked scope ScopeTree.exportingDirectory = .error e) :
    Job.run (exportDirectory scope dir).run w = (.error e, w) := by
  have hunlocked : Job.run (discard (Attempt.of
      (w.scopes.unlocked scope ScopeTree.exportingDirectory))).run w = (.error e, w) := by
    rw [h]
    rfl
  rw [exportDirectory, Attempt.run_bind_ok (Attempt.run_scopes w), Attempt.run_bind_error hunlocked]

/-- An open scope takes classes whose names are new to it. -/
theorem run_exportDirectory (h : w.scopes.scope? scope = some s) (hopen : s.locked = false)
    (hcs : w.files.readClasses dir = .ok cs) (hnew : ∀ c ∈ cs, s.classes[c.name]? = none) :
    Job.run (exportDirectory scope dir).run w = (.ok (cs.map CompiledClass.name), { w with
      scopes := w.scopes.set scope (s.taking dir cs)
      log := w.log ++ [.directoryExported s.name dir.text cs.length] }) := by
  have hread : (w.files.readClasses dir).mapError ScopeError.classFile = .ok cs := by
    rw [hcs]
    rfl
  have halter : Job.run (Attempt.alter id (.exportAll scope dir cs)).run w =
      (.ok (), { w with scopes := w.scopes.set scope (s.taking dir cs) }) :=
    Attempt.run_alter (ScopeTree.exportAll_of_open h hopen dir hnew)
  rw [run_exportDirectory_open h hopen, Attempt.run_bind_ok (Attempt.run_of hread w),
    Attempt.run_bind_ok halter]
  rfl

/-- Why a scope refuses a directory, in the order in which it is asked. -/
inductive ExportRefusal (w : World) (scope : Nat) (dir : Path) : ScopeError → Prop
  | released (h : w.scopes.scope? scope = none) : ExportRefusal w scope dir (.released scope)
  | locked {s : Scope} (h : w.scopes.scope? scope = some s) (hl : s.locked = true) :
      ExportRefusal w scope dir (.locked s.name ScopeTree.exportingDirectory)
  | unreadable {s : Scope} {e : ClassFileError} (h : w.scopes.scope? scope = some s)
      (hopen : s.locked = false) (he : w.files.readClasses dir = .error e) :
      ExportRefusal w scope dir (.classFile e)
  /-- The first name that the scope exports already. -/
  | taken {s : Scope} {before after : List CompiledClass} {c : CompiledClass}
      (h : w.scopes.scope? scope = some s) (hopen : s.locked = false)
      (hcs : w.files.readClasses dir = .ok (before ++ c :: after))
      (hbefore : ∀ b ∈ before, s.classes[b.name]? = none) (hc : s.classes[c.name]? ≠ none) :
      ExportRefusal w scope dir (.duplicateClass s.name c.name)

/-- A refusal is answered, and nothing is done. -/
theorem ExportRefusal.run {e : ScopeError} (h : ExportRefusal w scope dir e) :
    Job.run (exportDirectory scope dir).run w = (.error e, w) := by
  cases h with
  | released h =>
    exact run_exportDirectory_closed (by rw [ScopeTree.unlocked, ScopeTree.get, h]; rfl)
  | locked h hl =>
    refine run_exportDirectory_closed ?_
    rw [ScopeTree.unlocked, ScopeTree.get_of_scope? h]
    show (if _ then _ else _) = _
    rw [if_pos hl]
  | @unreadable s e h hopen he =>
    have hread : (w.files.readClasses dir).mapError ScopeError.classFile =
        .error (.classFile e) := by
      rw [he]
      rfl
    rw [run_exportDirectory_open h hopen, Attempt.run_bind_error (Attempt.run_of hread w)]
  | @taken s before after c h hopen hcs hbefore hc =>
    have hread : (w.files.readClasses dir).mapError ScopeError.classFile =
        .ok (before ++ c :: after) := by
      rw [hcs]
      rfl
    have halter : Job.run (Attempt.alter id (.exportAll scope dir (before ++ c :: after))).run w =
        (.error (.duplicateClass s.name c.name), w) :=
      Attempt.run_alter_error (ScopeTree.exportAll_of_taken h hopen dir hbefore hc)
    rw [run_exportDirectory_open h hopen, Attempt.run_bind_ok (Attempt.run_of hread w),
      Attempt.run_bind_error halter]

/-- A directory is refused, or an open scope takes it. -/
theorem exportDirectory_cases (w : World) (scope : Nat) (dir : Path) :
    (∃ e, ExportRefusal w scope dir e) ∨
      ∃ s cs, w.scopes.scope? scope = some s ∧ s.locked = false ∧ w.files.readClasses dir = .ok cs ∧
        ∀ c ∈ cs, s.classes[c.name]? = none := by
  cases h : w.scopes.scope? scope with
  | none => exact .inl ⟨_, .released h⟩
  | some s =>
    cases hl : s.locked with
    | true => exact .inl ⟨_, .locked h hl⟩
    | false =>
      cases hcs : w.files.readClasses dir with
      | error e => exact .inl ⟨_, .unreadable h hl hcs⟩
      | ok cs =>
        -- Of the classes whose names are taken, the first one is reported.
        cases hfind : cs.find? fun c => s.classes[c.name]?.isSome with
        | none =>
          refine .inr ⟨s, cs, rfl, hl, rfl, fun c hc => ?_⟩
          exact Option.not_isSome_iff_eq_none.mp (List.find?_eq_none.mp hfind c hc)
        | some c =>
          obtain ⟨hc, before, after, rfl, hbefore⟩ := List.find?_eq_some_iff_append.mp hfind
          refine .inl ⟨_, .taken h hl hcs (fun b hb => ?_) (Option.isSome_iff_ne_none.mp hc)⟩
          have hnot := hbefore b hb
          rw [Bool.not_eq_true', Option.isSome_eq_false_iff] at hnot
          exact Option.isNone_iff_eq_none.mp hnot

/-- What an export does is known from the scope and from the directory. -/
theorem run_exportDirectory_eq_error {e : ScopeError} {w' : World}
    (h : Job.run (exportDirectory scope dir).run w = (.error e, w')) :
    ExportRefusal w scope dir e ∧ w' = w := by
  rcases exportDirectory_cases w scope dir with ⟨e', he⟩ | ⟨s, cs, hs, hopen, hcs, hnew⟩
  · cases h.symm.trans he.run
    exact ⟨he, rfl⟩
  · cases h.symm.trans (run_exportDirectory hs hopen hcs hnew)

theorem run_exportDirectory_eq_ok {names : List String} {w' : World}
    (h : Job.run (exportDirectory scope dir).run w = (.ok names, w')) :
    ∃ s cs, w.scopes.scope? scope = some s ∧ s.locked = false ∧ w.files.readClasses dir = .ok cs ∧
      (∀ c ∈ cs, s.classes[c.name]? = none) ∧ names = cs.map CompiledClass.name ∧
      w' = { w with
        scopes := w.scopes.set scope (s.taking dir cs)
        log := w.log ++ [.directoryExported s.name dir.text cs.length] } := by
  rcases exportDirectory_cases w scope dir with ⟨e', he⟩ | ⟨s, cs, hs, hopen, hcs, hnew⟩
  · cases h.symm.trans he.run
  · cases h.symm.trans (run_exportDirectory hs hopen hcs hnew)
    exact ⟨s, cs, hs, hopen, hcs, hnew, rfl, rfl⟩

/-! ## 2. What a scope takes -/

namespace Scope

/-- Of classes with one name the last one is exported. -/
theorem exists_of_taking (s : Scope) (dir : Path) {n : String} (h : ∃ c ∈ cs, c.name = n) :
    ∃ c ∈ cs, c.name = n ∧ (s.taking dir cs).classes[n]? = some c := by
  show ∃ c ∈ cs, c.name = n ∧ (cs.foldl (fun m c => m.insert c.name c) s.classes)[n]? = some c
  -- The last class stays if it has the name, and else it changes nothing for the name.
  induction cs using List.reverseRecOn with
  | nil => simp at h
  | append_singleton cs d ih =>
    rw [List.foldl_append, List.foldl_cons, List.foldl_nil, getElem?_insert_name]
    by_cases hd : n = d.name
    · exact ⟨d, by simp, hd.symm, if_pos hd⟩
    · obtain ⟨c, hc, hn⟩ := h
      have hcs : c ∈ cs := by
        rcases List.mem_append.mp hc with hc | hc
        · exact hc
        · exact absurd (List.mem_singleton.mp hc ▸ hn.symm) hd
      obtain ⟨c', hc', hn', hget⟩ := ih ⟨c, hcs, hn⟩
      exact ⟨c', List.mem_append_left _ hc', hn', (if_neg hd).trans hget⟩

theorem taking_of_ne (s : Scope) (dir : Path) {n : String} (h : ∀ c ∈ cs, c.name ≠ n) :
    (s.taking dir cs).classes[n]? = s.classes[n]? := getElem?_foldl_insert_of_ne h s.classes

/-- What a scope is after it took a directory: it has it as its last one, it keeps what it exported,
and what it exports besides is classes of the class files, one for each of their names. -/
structure Takes (t : FileTree) (dir : Path) (s s' : Scope) : Prop where
  others : s' = { s with classes := s'.classes, directories := s.directories ++ [dir] }
  kept : ∀ (n : String) (c : CompiledClass), s.classes[n]? = some c → s'.classes[n]? = some c
  new : ∀ file c, t.Holds dir file c → s.classes[c.name]? = none
  covers : ∀ file c, t.Holds dir file c →
    ∃ file' c', t.Holds dir file' c' ∧ c'.name = c.name ∧ s'.classes[c.name]? = some c'
  only : ∀ (n : String) (c : CompiledClass), s'.classes[n]? = some c →
    s.classes[n]? = some c ∨ ∃ file, t.Holds dir file c ∧ c.name = n

theorem takes_taking {t : FileTree} (hcs : t.readClasses dir = .ok cs)
    (hnew : ∀ c ∈ cs, s.classes[c.name]? = none) : s.Takes t dir (s.taking dir cs) where
  others := rfl
  kept := by
    intro n c hc
    rwa [taking_of_ne]
    rintro d hd rfl
    rw [hnew d hd] at hc
    cases hc
  new := fun file c hc => hnew c ((mem_readClasses hcs).mpr ⟨file, hc⟩)
  covers := by
    intro file c hc
    obtain ⟨c', hc', hn, hget⟩ :=
      s.exists_of_taking dir ⟨c, (mem_readClasses hcs).mpr ⟨file, hc⟩, rfl⟩
    obtain ⟨file', hfile'⟩ := (mem_readClasses hcs).mp hc'
    exact ⟨file', c', hfile', hn, hget⟩
  only := by
    intro n c hc
    -- A name of the directory stands for a class of the directory, any other for what it did
    -- before.
    by_cases hn : ∃ d ∈ cs, d.name = n
    · obtain ⟨c', hc', hn', hget⟩ := s.exists_of_taking dir hn
      rw [hget] at hc
      cases hc
      obtain ⟨file, hfile⟩ := (mem_readClasses hcs).mp hc'
      exact .inr ⟨file, hfile, hn'⟩
    · rw [s.taking_of_ne dir fun d hd he => hn ⟨d, hd, he⟩] at hc
      exact .inl hc

/-- Each class of a directory is exported exactly if no other class there has its name. -/
theorem Takes.all_iff {t : FileTree} {s' : Scope} (h : s.Takes t dir s') :
    (∀ file c, t.Holds dir file c → s'.classes[c.name]? = some c) ↔
      ∀ file c file' c', t.Holds dir file c → t.Holds dir file' c' → c.name = c'.name → c = c' := by
  constructor
  · intro hall file c file' c' hc hc' he
    have hget := hall file c hc
    rw [he, hall file' c' hc'] at hget
    exact (Option.some.inj hget).symm
  · intro hone file c hc
    obtain ⟨file', c', hc', hn, hget⟩ := h.covers file c hc
    obtain rfl := hone file c file' c' hc hc' hn.symm
    exact hget

end Scope

/-! ## 3. All or none -/

/-- **Exporting a directory is all or none.**  In whatever tree of scopes, an export that is refused
changes nothing at all, and says what stood in its way.  One that answers has found an open scope,
and the scope takes the directory: its names are those of the classes in the class files, each file
once, in order; each of them stands for a class of the directory from now on.  The files lose no
class exactly if no two of them hold different classes of one name, and no name is answered twice
exactly if no two of them hold classes of one name.  An export answers exactly if the scope is live
and open, the directory can be listed, and each class file there can be read and holds a class whose
name is new to the scope. -/
theorem exportDirectory_all_or_none (u : World) (root : String) (calls : List ScopeTree.Call)
    (scope : Nat) (dir : Path) :
    let w : World := { u with scopes := (ScopeTree.root root).afterAll calls }
    (∀ e w', Job.run (exportDirectory scope dir).run w = (.error e, w') →
      w' = w ∧ ExportRefusal w scope dir e) ∧
    (∀ names w', Job.run (exportDirectory scope dir).run w = (.ok names, w') →
      ∃ s s', w.scopes.scope? scope = some s ∧ s.locked = false ∧ s.Takes w.files dir s' ∧
        w' = { w with
          scopes := w.scopes.set scope s'
          log := w.log ++ [.directoryExported s.name dir.text names.length] } ∧
        names.Pairwise (· ≤ ·) ∧
        (∃ cs : List CompiledClass, names = cs.map CompiledClass.name ∧
          (cs.map .ok).Perm ((w.files.classFiles dir).map fun file =>
            w.files.readClass (dir.join file))) ∧
        (∀ n ∈ names, ∃ file c, w.files.Holds dir file c ∧ c.name = n ∧
          w'.scopes.resolve scope n = .ok c) ∧
        ((∀ file c, w.files.Holds dir file c → w'.scopes.resolve scope c.name = .ok c) ↔
          ∀ file c file' c', w.files.Holds dir file c → w.files.Holds dir file' c' →
            c.name = c'.name → c = c') ∧
        (names.Nodup ↔ ∀ file c file' c', w.files.Holds dir file c → w.files.Holds dir file' c' →
          c.name = c'.name → file = file')) ∧
    ((∃ names w', Job.run (exportDirectory scope dir).run w = (.ok names, w')) ↔
      ∃ s, w.scopes.scope? scope = some s ∧ s.locked = false ∧
        (∃ entries, w.files.list dir = .ok entries) ∧
        ∀ file ∈ w.files.classFiles dir, ∃ c, w.files.Holds dir file c ∧
          s.classes[c.name]? = none) := by
  intro w
  have hsound : w.scopes.Sound := (ScopeTree.sound_root root).afterAll calls
  refine ⟨fun e w' h => (run_exportDirectory_eq_error h).symm, fun names w' h => ?_, ?_, ?_⟩
  · obtain ⟨s, cs, hs, hopen, hcs, hnew, rfl, rfl⟩ := run_exportDirectory_eq_ok h
    have htakes := Scope.takes_taking hcs hnew
    have hsound' : (w.scopes.set scope (s.taking dir cs)).Sound := hsound.set hs rfl
    have hset : (w.scopes.set scope (s.taking dir cs)).scope? scope = some (s.taking dir cs) := by
      rw [ScopeTree.scope?_set (ScopeTree.lt_of_scope? hs), if_pos rfl]
    have hresolve {n : String} {c : CompiledClass} (hc : (s.taking dir cs).classes[n]? = some c) :
        (w.scopes.set scope (s.taking dir cs)).resolve scope n = .ok c :=
      hsound'.resolve_exported hset hc
    refine ⟨s, s.taking dir cs, hs, hopen, htakes, by rw [List.length_map], sorted_readClasses hcs,
      ⟨cs, rfl, perm_readClasses hcs⟩, fun n hn => ?_, ?_, nodup_readClasses_iff hcs⟩
    · obtain ⟨c, hc, rfl⟩ := List.mem_map.mp hn
      obtain ⟨file, hfile⟩ := (mem_readClasses hcs).mp hc
      obtain ⟨file', c', hc', hn', hget⟩ := htakes.covers file c hfile
      exact ⟨file', c', hc', hn', hresolve hget⟩
    · -- What a name stands for in the scope is what the scope exports: it comes before its
      -- ancestors.
      rw [← htakes.all_iff]
      refine forall_congr' fun file => forall_congr' fun c => forall_congr' fun hc => ?_
      obtain ⟨file', c', -, -, hget⟩ := htakes.covers file c hc
      rw [hresolve hget, hget, Except.ok.injEq, Option.some.injEq]
  · rintro ⟨names, w', h⟩
    obtain ⟨s, cs, hs, hopen, hcs, hnew, -, -⟩ := run_exportDirectory_eq_ok h
    -- An export that answers has read every class file, and has found each of its names new.
    obtain ⟨hlist, hread⟩ := exists_readClasses_iff.mp ⟨cs, hcs⟩
    refine ⟨s, hs, hopen, hlist, fun file hfile => ?_⟩
    obtain ⟨c, hc⟩ := hread file hfile
    exact ⟨c, hc, hnew c ((mem_readClasses hcs).mpr ⟨file, hc⟩)⟩
  · rintro ⟨s, hs, hopen, hlist, hread⟩
    have hread' : ∀ file ∈ w.files.classFiles dir, ∃ c,
        w.files.Holds dir file c := fun file hfile =>
      (hread file hfile).imp fun _ h => h.1
    obtain ⟨cs, hcs⟩ := exists_readClasses_iff.mpr ⟨hlist, hread'⟩
    refine ⟨_, _, run_exportDirectory hs hopen hcs fun c hc => ?_⟩
    obtain ⟨file, hfile⟩ := (mem_readClasses hcs).mp hc
    obtain ⟨c', hc', hnew⟩ := hread file hfile.1
    rwa [hfile.unique hc']

end ScriptPlugins
