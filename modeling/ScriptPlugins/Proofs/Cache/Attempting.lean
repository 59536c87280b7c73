import ScriptPlugins.Proofs.Cache.Compiling
import ScriptPlugins.Proofs.Cache.Housing
import ScriptPlugins.Proofs.Compile.Bodies
import ScriptPlugins.Proofs.Compiled.Files
import ScriptPlugins.Proofs.Files.Leading
import ScriptPlugins.Proofs.Job.Stopping

/-!
# Attempts — what becomes of an entry when nobody else is about

An attempt to compile a phase ends in one of three ways: its entry is used again, or it is compiled
for the source and the time at hand, or there is none.  A name that the file system does not take
has no entry, and an attempt to compile it fails for its source or for the file system.
-/

namespace ScriptPlugins

/-! ## 1. Failures of the file system -/

/-- Whether what was compiled could not be written. -/
def CompileError.isIo : CompileError → Bool
  | output _ | metadata _ => true
  | syntaxFault .. | rejected _ => false

def ScopeError.isIo : ScopeError → Bool
  | classFile (.io ..) => true
  | _ => false

def LoadError.isIo : LoadError → Bool
  | io .. => true
  | scope cause => cause.isIo
  | _ => false

/-- Whether a failure comes from the file system, and not from a source, a class or a scope. -/
def BuildError.isIo : BuildError → Bool
  | files .. | adapterNotWritten .. => true
  | notCompiled _ _ cause => cause.isIo
  | notLoaded _ cause => cause.isIo
  | scope cause => cause.isIo
  | nameTaken .. | crashed .. | adapterMalformed .. => false

/-! ## 2. Names that lead to nothing -/

namespace FileTree

variable {S : Set Location} {t t' : FileTree} {p dir path : Path} {l m : Location}
  {ss : List String} {bytes : ByteArray}

/-- What is found below a root stands where the parts lead. -/
theorem eq_of_place_down (hp : Standing S t p l) (hn : ∀ s ∈ ss, IsPart s)
    (h : t.place (p.down ss) = .ok m) : m = l ++ ss := by
  rw [leads_of_place h, Path.steps_down hn, leads_append, ← (walk_eq_ok.mp hp.walk).1, leads_names]

variable (ss) in
/-- Nothing is found where nothing stands, whatever the system takes. -/
theorem not_isThere_down (hp : Standing S t p l) (hn : ∀ s ∈ ss, IsPart s)
    (hnone : t.entry? (l ++ ss) = none) : t.isThere (p.down ss) = false := by
  cases hl : t.locate (p.down ss) with
  | error e => exact not_isThere_of_look (look_nowhere hl)
  | ok m =>
    rw [← eq_of_place_down hp hn (locate_eq_ok.mp hl).1] at hnone
    exact not_isThere_of_look (look_missing hl hnone)

variable (ss) in
/-- Nothing is removed where nothing stands. -/
theorem removeDirectory_down_missing (hp : Standing S t p l) (hn : ∀ s ∈ ss, IsPart s)
    (hnone : t.entry? (l ++ ss) = none) : (t.removeDirectory (p.down ss)).2 = t := by
  cases hl : t.locate (p.down ss) with
  | error e => rw [removeDirectory, hl]
  | ok m =>
    rw [← eq_of_place_down hp hn (locate_eq_ok.mp hl).1] at hnone
    rw [removeDirectory_nothing hl hnone]

/-- A file that was written has a path and names that the system takes. -/
theorem WritesInto.takes (h : t.WritesInto dir path bytes t') :
    Fits path ∧ ∀ s, .name s ∈ path.steps → s.utf8ByteSize ≤ nameLimit := by
  obtain ⟨t₁, -, hwrite⟩ := h
  obtain ⟨-, m, hm, -⟩ := writeFile_eq_ok.mp (writeFile_of_apply hwrite)
  obtain ⟨hfit, hwalk⟩ := place_eq_ok.mp hm
  exact ⟨hfit, (walk_eq_ok.mp hwalk).2.2⟩

theorem WritesInto.look (h : t.WritesInto dir path bytes t') :
    t'.look path = .ok (.file bytes) := by
  obtain ⟨t₁, -, hwrite⟩ := h
  exact look_of_writeFile (writeFile_of_apply hwrite)

end FileTree

namespace Cache

open Owning

variable {c : Cache} {C M : Location} {compiler : Compiler} {s : Script} {phase : Phase}
  {w w' : World} {name : String} {steps : List Step} {t t' : FileTree}

/-- An entry that was written has a name that the cache takes. -/
theorem takes_of_writes {compiled : CompiledClass} {m : Metadata}
    (hname : compiled.name = s.classNameOf phase) (h : (c.key s phase).Writes compiled m t t') :
    c.Takes (s.classNameOf phase) := by
  obtain ⟨t₁, hclass, hmetadata⟩ := h
  rw [hname] at hclass
  have hpart := s.isPart_classNameOf phase
  have hfile := s.isPart_classFileName phase
  obtain ⟨hclassFits, hsizes⟩ := hclass.takes
  have hsteps : (classFile (c.classesDir (s.classNameOf phase)) (s.classNameOf phase)).steps =
      c.classesRoot.steps ++ [.name (s.classNameOf phase)] ++
        [.name (classFileName (s.classNameOf phase))] := by
    rw [classFile, classesDir, Path.steps_join_part hfile, Path.steps_join_part hpart]
  exact ⟨⟨hpart.ne_empty, hpart.no_slash, hpart.ne_here, hpart.ne_up,
    hsizes _ (by simp [key, hsteps])⟩,
    ⟨hfile.ne_empty, hfile.no_slash, hfile.ne_here, hfile.ne_up, hsizes _ (by simp [key, hsteps])⟩,
    hclassFits, hmetadata.takes.1⟩

/-! ## 3. One attempt -/

/-- How compiling a phase anew may end. -/
inductive Compiled (c : Cache) (compiler : Compiler) (s : Script) (phase : Phase) (w : World) :
    Except BuildError Unit → World → Prop
  | wrong {err : BuildError} (hplan : s.plan compiler phase = .error err) :
      Compiled c compiler s phase w (.error err) w
  | refused {err : BuildError} {w' : World} (hio : err.isIo = true) :
      Compiled c compiler s phase w (.error err) w'
  | done {steps : List Step} {w' : World} (hsteps : stepsOf phase phase.hook (s.sourceOf phase) =
      .ok steps) (htakes : c.Takes (s.classNameOf phase))
      (hlook : w'.files.look (metadataFile (c.metadataDir (s.classNameOf phase))) =
        .ok (.file ((c.key s phase).metadataOf steps w.now).print.toUTF8)) :
      Compiled c compiler s phase w (.ok ()) w'

theorem compiled_compileEntry (c : Cache) (compiler : Compiler) (s : Script)
    (phase : Phase) (w : World) :
    c.Compiled compiler s phase w (Job.run (c.compileEntry compiler s phase).run w).1
      (Job.run (c.compileEntry compiler s phase).run w).2 := by
  rw [compileEntry]
  cases hcrash : compiler.crash? (s.classNameOf phase) (s.sourceOf phase) with
  | some reason => exact .wrong (by rw [Script.plan, hcrash])
  | none =>
    simp only
    cases hsteps : stepsOf phase phase.hook (s.sourceOf phase) with
    | error e =>
      -- The source is read before anything is written.
      have hrun : Job.run ((c.key s phase).compile phase.hook (s.sourceOf phase)).run w =
          (.error e, w) :=
        run_compile_refused hsteps
      rw [Attempt.run_bind_error (Attempt.run_adapt hrun)]
      exact .wrong (by rw [Script.plan, hcrash, hsteps]; rfl)
    | ok steps =>
      rcases hrun : Job.run ((c.key s phase).compile phase.hook (s.sourceOf phase)).run w with
        ⟨e | ⟨⟩, w₁⟩
      · rw [Attempt.run_bind_error (Attempt.run_adapt hrun)]
        refine .refused ?_
        rcases run_compile_eq_error (k := c.key s phase) hsteps hrun with
          ⟨cause, rfl⟩ | ⟨cause, rfl⟩ <;> rfl
      · rw [Attempt.run_bind_ok (Attempt.run_adapt hrun)]
        obtain ⟨t, hwrites, rfl⟩ := (run_compile_eq_ok (k := c.key s phase) hsteps).mp hrun
        refine .done hsteps (takes_of_writes rfl hwrites) ?_
        obtain ⟨t₁, -, hmetadata⟩ := hwrites
        exact hmetadata.look

variable (c compiler s phase) in
/-- What is left to do about an entry that is missing. -/
theorem run_refresh_of_probe {f : Freshness} (h : (c.key s phase).probe w.files = .ok f) :
    Job.run (c.refresh compiler s phase).run w = Job.run (c.renew compiler s phase f).run w := by
  rw [refresh_eq, Attempt.run_bind_ok (Attempt.run_files w),
    Attempt.run_bind_ok (Attempt.run_of h w)]

/-- What was compiled was compiled at the time of the attempt, and its metadata is there. -/
theorem look_of_run_refresh (h : Job.run (c.refresh compiler s phase).run w = (.ok true, w')) :
    ∃ steps, stepsOf phase phase.hook (s.sourceOf phase) = .ok steps ∧
      w'.files.look (metadataFile (c.metadataDir (s.classNameOf phase))) =
        .ok (.file ((c.key s phase).metadataOf steps w.now).print.toUTF8) := by
  -- What is compiled is the entry, whether it was missing or stale before.
  have hcompiled {w₁ : World} (hrun : Job.run (do c.compileEntry compiler s phase; return true :
      Attempt BuildError Bool).run w₁ = (.ok true, w')) (hnow : w₁.now = w.now) :
      ∃ steps, stepsOf phase phase.hook (s.sourceOf phase) = .ok steps ∧
        w'.files.look (metadataFile (c.metadataDir (s.classNameOf phase))) =
          .ok (.file ((c.key s phase).metadataOf steps w.now).print.toUTF8) := by
    obtain ⟨_, w₂, hentry, hrun⟩ := Attempt.of_run_bind_ok hrun
    cases hrun
    have hends := c.compiled_compileEntry compiler s phase w₁
    rw [hentry] at hends
    cases hends with
    | done hsteps _ hlook => exact ⟨_, hsteps, hnow ▸ hlook⟩
  rw [refresh_eq] at h
  obtain ⟨t, w₁, hfiles, h⟩ := Attempt.of_run_bind_ok h
  obtain ⟨f, w₂, hprobe, h⟩ := Attempt.of_run_bind_ok h
  have hnow : w₂.now = w.now := (Attempt.now_run hprobe).trans (Attempt.now_run hfiles)
  cases f with
  | fresh =>
    obtain ⟨_, w₃, -, h⟩ := Attempt.of_run_bind_ok h
    cases h
  | missing => exact hcompiled h hnow
  | stale reason =>
    obtain ⟨_, w₃, hreport, h⟩ := Attempt.of_run_bind_ok h
    obtain ⟨_, w₄, hremove, h⟩ := Attempt.of_run_bind_ok h
    exact hcompiled h ((Attempt.now_run hremove).trans ((Attempt.now_run hreport).trans hnow))

/-! ## 4. Entries -/

/-- The entries of a cache: what each of them was made from, and nothing stands there but these. -/
structure Holds (c : Cache) (C M : Location) (made : String → Option Made) (t : FileTree) :
    Prop where
  housed : c.Housed C M t
  shelf : c.Shelf (owning C M 0) C M Set.univ (Boxes.ofMade ∘ made) t
  entries : ∀ n m, made n = some m → m.name = n ∧ m.Sound ∧ c.Takes n

/-- Nothing is known of the scopes. -/
def freeFrame (o : Owning) : o.Frame Set.univ := ⟨fun _ => True, fun _ _ _ _ => trivial⟩

/-- What becomes of an entry by an attempt at some time, as the answer tells: it stays, it is
compiled, or there is none. -/
def Becomes (c : Cache) (s : Script) (phase : Phase) (now : Instant) (entry : Option Made) :
    Except BuildError Bool → Option Made → Prop
  | .ok false, entry' => entry' = entry
  | .ok true, entry' => ∃ steps, stepsOf phase phase.hook (s.sourceOf phase) = .ok steps ∧
      entry'.map Made.metadata = some ((c.key s phase).metadataOf steps now)
  | .error _, entry' => entry' = none

namespace Holds

variable {made made' : String → Option Made}

theorem records (h : c.Holds C M made w.files) (hnow : w.now.valid = true) :
    c.Records (owning C M 0) C M (freeFrame _) made w :=
  ⟨⟨h.shelf, trivial, hnow⟩, fun n _ m hm => ⟨(h.entries n m hm).1, (h.entries n m hm).2.1⟩⟩

theorem of_records (h : c.Holds C M made w.files) (hk : (owning C M 0).Keeps Set.univ w w')
    (hrec : c.Records (owning C M 0) C M (freeFrame _) made' w')
    (htakes : ∀ n m, made' n = some m → c.Takes n) : c.Holds C M made' w'.files :=
  ⟨h.housed.stays (hk.files.mono ((region_subset_owned _).trans owned_subset)), hrec.knows.shelf,
    fun n m hm => ⟨(hrec.sound n (Set.mem_univ n) m hm).1, (hrec.sound n (Set.mem_univ n) m hm).2,
      htakes n m hm⟩⟩

/-- A name that the cache does not take has no entry. -/
theorem eq_none (h : c.Holds C M made t) (ht : ¬c.Takes name) : made name = none :=
  Option.eq_none_iff_forall_not_mem.mpr fun m hm => ht (h.entries name m hm).2.2

theorem takes_update (h : c.Holds C M made t) {entry : Option Made} (ht : c.Takes name)
    (n : String) (m : Made) (hm : Function.update made name entry n = some m) : c.Takes n := by
  by_cases he : n = name
  · exact he ▸ ht
  · rw [Function.update_of_ne he] at hm
    exact (h.entries n m hm).2.2

/-- Nothing stands in the directories of a name without an entry. -/
theorem stores_none (h : c.Holds C M made t) (hnone : made name = none) :
    t.Stores (C ++ [name]) (classFileName name) none ∧
      t.Stores (M ++ [name]) metadataFileName none := by
  have hclasses := h.shelf.classes name (Set.mem_univ name)
  have hmetadata := h.shelf.metadata name (Set.mem_univ name)
  rw [Function.comp_apply, hnone] at hclasses hmetadata
  exact ⟨hclasses, hmetadata⟩

/-- A name that the cache does not take cannot be compiled, and nothing is left of the attempt. -/
theorem refresh_untaken (h : c.Holds C M made w.files) (ht : ¬c.Takes (s.classNameOf phase))
    (hio : ∀ err, (Job.run (c.refresh compiler s phase).run w).1 = .error err → err.isIo = false) :
    ∃ err, Job.run (c.refresh compiler s phase).run w = (.error err, w) := by
  have hnone := h.eq_none ht
  have hthere : w.files.isThere (metadataFile (c.metadataDir (s.classNameOf phase))) = false := by
    refine FileTree.not_isThere_down [s.classNameOf phase, metadataFileName] h.shelf.metadataRoot
      (fun n hn => ?_) ?_
    · rcases List.mem_pair.mp hn with rfl | rfl
      · exact s.isPart_classNameOf phase
      · exact isName_metadata.part
    · have hstores := (h.stores_none hnone).2 [metadataFileName]
      rwa [List.append_assoc] at hstores
  -- So the attempt goes on to compile, and that fails, for an entry that was written has a name
  -- that is taken.
  have hprobe : (c.key s phase).probe w.files = .ok .missing := if_pos (by rw [key, hthere]; rfl)
  rw [run_refresh_of_probe c compiler s phase hprobe] at hio ⊢
  have hends := c.compiled_compileEntry compiler s phase w
  rcases hrun : Job.run (c.compileEntry compiler s phase).run w with ⟨err | ⟨⟩, w'⟩
  · have hall : Job.run (c.renew compiler s phase .missing).run w = (.error err, w') :=
      Attempt.run_bind_error hrun
    rw [hrun] at hends
    rw [hall] at hio ⊢
    cases hends with
    | wrong => exact ⟨err, rfl⟩
    | refused htrue =>
      rw [hio err rfl] at htrue
      cases htrue
  · rw [hrun] at hends
    cases hends with
    | done _ htakes _ => exact absurd htakes ht

variable (compiler phase) in
/-- **What an attempt leaves of an entry is told by its answer**, and all other entries stay. -/
theorem refresh (h : c.Holds C M made w.files) (hnow : w.now.valid = true)
    (hlines : 1 + Language.lineFeeds s.source.toList ≤ lineLimit)
    (hio : ∀ err, (Job.run (c.refresh compiler s phase).run w).1 = .error err → err.isIo = false) :
    ∃ entry, c.Holds C M (Function.update made (s.classNameOf phase) entry)
        (Job.run (c.refresh compiler s phase).run w).2.files ∧
      c.Becomes s phase w.now (made (s.classNameOf phase))
        (Job.run (c.refresh compiler s phase).run w).1 entry := by
  by_cases ht : c.Takes (s.classNameOf phase)
  case neg =>
    obtain ⟨err, hrun⟩ := h.refresh_untaken ht hio
    rw [hrun]
    refine ⟨none, ?_, rfl⟩
    rwa [← h.eq_none ht, Function.update_eq_self]
  obtain ⟨hk, d, -, -, now, hvalid, hentry⟩ := (ends_refresh compiler (e := 0) (h.housed.seat 0)
    (Set.mem_univ _) ht hlines (h.records hnow)).run
  cases hfor : s.entryFor compiler phase now (made (s.classNameOf phase)) with
  | error err =>
    rw [hfor] at hentry
    refine ⟨none, h.of_records hk hentry.2 (h.takes_update ht), ?_⟩
    rw [hentry.1]
    rfl
  | ok m =>
    rw [hfor] at hentry
    have hholds := h.of_records hk hentry.2 (h.takes_update ht)
    refine ⟨some m, hholds, ?_⟩
    rw [hentry.1]
    rcases Script.entryFor_eq_ok hfor with ⟨hm, hserves⟩ | ⟨hnone, -⟩
    · have hfresh : s.fresh? phase (made (s.classNameOf phase)) = some m :=
        Option.filter_eq_some_iff.mpr ⟨hm, hserves⟩
      rw [hfresh]
      exact hm.symm
    · rw [hnone, Option.isNone_none] at hentry
      -- The entry was made at some time; its metadata tells which.
      obtain ⟨steps, hsteps, hlook⟩ := look_of_run_refresh (Prod.ext hentry.1 rfl)
      have hread := hholds.shelf.readMetadata (Set.mem_univ _) ht
        (by rw [Function.comp_apply, Function.update_self]; rfl)
        (hholds.entries _ m (Function.update_self ..)).2.1
      have hreadable : ((c.key s phase).metadataOf steps w.now).Readable :=
        ⟨show metadataVersion ≤ versionLimit by decide, hnow⟩
      rw [FileTree.readMetadata_of_look hreadable hlook] at hread
      rw [hnone]
      exact ⟨steps, hsteps, congrArg some (Except.ok.inj hread).symm⟩

/-- A directory that is not there is not removed. -/
theorem run_removeIfThere_missing {dir : Path} (h : (w.files.removeDirectory dir).2 = w.files) :
    (Job.run (removeIfThere dir).run w).2 = w := by
  obtain ⟨reply, answer, files, hremove, hrun, -⟩ := run_removeIfThere_cases dir w
  rw [hremove] at h
  rw [hrun, show files = w.files from h]

/-- Removing an entry leaves no entry, and nothing else is removed. -/
theorem remove (h : c.Holds C M made w.files) (hnow : w.now.valid = true) (hname : IsPart name) :
    c.Holds C M (Function.update made name none) (Job.run (c.remove name).run w).2.files := by
  by_cases ht : c.Takes name
  · obtain ⟨hk, d, -, -, -, -, hknows⟩ := (answers_remove (e := 0) (h.housed.seat 0)
      (Set.mem_univ name) ht (h.records hnow).knows).run
    exact h.of_records hk (.update hknows (h.records hnow).sound nofun) (h.takes_update ht)
  · -- There is nothing at either place, so neither removal finds anything.
    have hnone := h.eq_none ht
    have hparts : ∀ n ∈ [name], IsPart n := fun n hn => List.mem_singleton.mp hn ▸ hname
    obtain ⟨hclasses, hmetadata⟩ := h.stores_none hnone
    have hfirst : (Job.run (removeIfThere (c.classesDir name)).run w).2 = w :=
      run_removeIfThere_missing
        (FileTree.removeDirectory_down_missing [name] h.shelf.classesRoot hparts hclasses.missing)
    have hsecond : (Job.run (removeIfThere (c.metadataDir name)).run w).2 = w :=
      run_removeIfThere_missing
        (FileTree.removeDirectory_down_missing [name] h.shelf.metadataRoot hparts hmetadata.missing)
    have hsame : (Job.run (c.remove name).run w).2 = w := by
      rcases hrun : Job.run (removeIfThere (c.classesDir name)).run w with ⟨err | ⟨⟩, w'⟩ <;>
        rw [hrun] at hfirst <;> cases hfirst
      · rw [Cache.remove, Attempt.run_bind_error hrun]
      · rw [Cache.remove, Attempt.run_bind_ok hrun, hsecond]
    rw [hsame, ← hnone, Function.update_eq_self]
    exact h

end Holds

end Cache

end ScriptPlugins
