import ScriptPlugins.Proofs.Batch.Ended
import ScriptPlugins.Proofs.Batch.Opening
import ScriptPlugins.Proofs.Batch.Packaging

/-!
# Closing — what a batch leaves when its scripts have ended

The scope of a batch is locked and what it exports is packaged.  In a build that was in order this
never fails, whatever became of the scripts, and the build is in order again.
-/

namespace ScriptPlugins

open FileTree Owning BuildLayout

variable {p : Precompiler} {L : Location} {used : Set Script} {root scope : Nat}
  {acc : List (Nat × Script)} {made : String → Option Made} {times : Nat → Phase → Instant}
  {w₀ w w' : World}

namespace Precompiler

/-! ## 1. What the scripts have left alone -/

/-- Scripts change nothing that does not belong to them. -/
theorem Ended.entry? (h : p.Ended L scope acc made times w₀ w) {m : Location}
    (hm : m ∉ batchOwned L scope) : w.files.entry? m = w₀.files.entry? m :=
  h.keeps.files.entries m fun hin => hm (Cache.region_subset_owned _ hin)

theorem Ended.standing (h : p.Ended L scope acc made times w₀ w)
    (h₀ : p.Begins L used root scope made w₀) : Standing (inside L) w.files p.layout.root L :=
  h₀.stands.stays (h.keeps.files.mono ((Cache.region_subset_owned _).trans reaches_owned.subset))

/-- The cache is stocked with the entries that are there in the end. -/
theorem Ended.stocked (h : p.Ended L scope acc made times w₀ w) (hapart : AllApart acc)
    (h₀ : p.Begins L used root scope made w₀)
    (hcache : w₀.files.entry? (L ++ ["compiled-scripts"]) = some .directory) :
    p.layout.Stocked L (p.madeAfter scope acc made times) w.files := by
  refine .of_shelf (h.standing h₀) ?_ (h.shelf hapart h₀)
  have hnot : L ++ ["compiled-scripts"] ∉ batchOwned L scope :=
    reaches_owned.not_mem (mem_between_one.mpr rfl) (by decide) (by decide) (by decide)
  exact (h.entry? hnot).trans hcache

/-- Nothing is packaged before all scripts have ended. -/
theorem Ended.noClasses (h : p.Ended L scope acc made times w₀ w)
    (h₀ : p.Opened L used root scope made w₀) :
    Paved L packagedNames w.files ∧ w.files.EmptyAt (L ++ packagedNames) := by
  have hbetween {m : Location} (hm : m ∈ between L packagedNames) :
      w.files.entry? m = w₀.files.entry? m :=
    h.entry? (reaches_owned.not_mem hm (by decide) (by decide) (by decide))
  refine ⟨fun m hm => (hbetween hm).trans (h₀.packaged m hm), ?_, fun s r => ?_⟩
  · exact (hbetween ⟨mem_inside (by decide), List.prefix_refl _⟩).trans h₀.noClasses.directory
  · rw [h.entry? fun hin => ?_, h₀.noClasses.empty s r]
    rcases reaches_owned _ hin with hin | hin | hin <;>
      exact not_prefix_append (not_prefix_at (by decide) L) (not_prefix_at (by decide) L) _ hin.1

/-- The directory for adapters is still there. -/
theorem Ended.paved (h : p.Ended L scope acc made times w₀ w)
    (h₀ : p.Begins L used root scope made w₀) : Paved L adaptersNames w.files := fun m hm =>
  (h.entry? (reaches_owned.not_mem hm (by decide) (by decide) (by decide))).trans (h₀.paved m hm)

/-! ## 2. Closing a batch -/

/-- What is there when a batch that exported some classes has been closed. -/
structure Closed (L : Location) (scope : Nat) (x : String → Option CompiledClass) (w w' : World) :
    Prop where
  packaged : Packaged x L w.files w'.files
  scopes : ∃ s, w.scopes.scope? scope = some s ∧
    w'.scopes = w.scopes.set scope { s with locked := true }
  registered : w'.registered = w.registered
  now : w'.now = w.now

/-- How many files a batch packages. -/
def packagedFiles (L : Location) (w : World) : Nat :=
  w.registered.length + w.files.fileCount (L ++ metadataNames)

theorem run_forReports {α : Type} (as : List α) (f : α → Log.Event) (w : World) :
    ∃ log, Job.run (ForIn.forIn as PUnit.unit fun a _ =>
      (do Attempt.report (f a); return ForInStep.yield PUnit.unit : Attempt BuildError _)).run w =
      (.ok PUnit.unit, { w with log }) := by
  induction as generalizing w with
  | nil => exact ⟨w.log, rfl⟩
  | cons a as ih =>
    obtain ⟨log, hrest⟩ := ih { w with log := w.log ++ [f a] }
    exact ⟨log, by rw [List.forIn_cons]; exact hrest⟩

theorem run_reportEnd (r : BatchReport) (w : World) :
    ∃ log, Job.run (reportEnd r).run w = (.ok (), { w with log }) := by
  obtain ⟨log, hrest⟩ := run_forReports r.failures (fun f => .scriptFailed f.1 f.2.message) w
  exact ⟨_, by rw [reportEnd, Attempt.run_bind_ok hrest]; rfl⟩

/-- What is registered are the directories of the entries that were loaded, each once. -/
theorem Ended.registered_perm_loaded (h : p.Ended L scope acc made times w₀ w)
    (h₀ : p.Begins L used root scope made w₀) {ms : List Made}
    (hms : p.Loaded scope acc made times ms) :
    w.registered.Perm (ms.map fun m => p.layout.cache.classesDir m.name) := by
  have htally := congrArg Prod.fst h.tally
  rw [Prod.fst_add, hms.registered] at htally
  have hzero : ((batchOwning L scope).tally w₀).1 = (w₀.registered : Multiset Path) := rfl
  rw [hzero, h₀.registered] at htally
  exact Multiset.coe_eq_coe.mp (htally.trans (zero_add _))

/-- What is registered are the directories of the classes that are exported. -/
theorem Ended.mem_registered (h : p.Ended L scope acc made times w₀ w)
    (h₀ : p.Begins L used root scope made w₀) {ms : List Made}
    (hms : p.Loaded scope acc made times ms)
    (dir : Path) : dir ∈ w.registered ↔
      ∃ n, p.exportsAfter scope acc made times n ≠ none ∧ dir = p.layout.cache.classesDir n := by
  rw [(h.registered_perm_loaded h₀ hms).mem_iff, List.mem_map]
  constructor
  · rintro ⟨m, hm, rfl⟩
    exact ⟨m.name, by simp [hms.exports m hm], rfl⟩
  · rintro ⟨n, hn, rfl⟩
    obtain ⟨m, hm, rfl⟩ := hms.only n hn
    exact ⟨m, hm, rfl⟩

/-- **A batch closes**, whatever became of its scripts. -/
theorem run_closing (hfit : p.layout.Fitting) (htakes : ∀ s ∈ used, p.layout.Takes s)
    (h₀ : p.Opened L used root scope made w₀)
    (hcache : w₀.files.entry? (L ++ ["compiled-scripts"]) = some .directory)
    (hapart : AllApart acc) (hacc : ∀ a ∈ acc, a.2 ∈ used)
    (h : p.Ended L scope acc made times w₀ w) (reports : List ScriptReport) :
    ∃ w', Job.run (p.closing scope reports).run w =
        (.ok ⟨reports, scope, packagedFiles L w⟩, w') ∧
      Closed L scope (p.exportsAfter scope acc made times) w w' := by
  obtain ⟨s, hs, -, -, -, hopen, -⟩ := h.exports hapart h₀.begins
  obtain ⟨ms, hms⟩ := h.exists_loaded h₀.begins.madeFrom htakes hapart hacc
  obtain ⟨hpaved, hempty⟩ := h.noClasses h₀
  have hmade := h.madeFrom h₀.begins.madeFrom htakes hapart hacc
  -- Locking the scope changes no file, so what is packaged is what the scripts left.
  let w₁ : World := { w with
    scopes := w.scopes.set scope { s with locked := true }
    log := w.log ++ [.scopeLocked s.name] }
  have hlock : Job.run (Attempt.adapt BuildError.scope (Attempt.lockScope scope)).run w =
      (.ok (), w₁) :=
    Attempt.run_adapt (Attempt.run_lockScope hs hopen)
  have hx (n : String) (hn : p.exportsAfter scope acc made times n ≠ none) :
      ∃ m, p.madeAfter scope acc made times n = some m ∧
        p.exportsAfter scope acc made times n = some m.compiled := by
    obtain ⟨m, hm, rfl⟩ := hms.only n hn
    exact ⟨m, hms.entries m hm, hms.exports m hm⟩
  have hdirs (dir : Path) : dir ∈ sortedDirectories w.registered ↔
      ∃ n, p.exportsAfter scope acc made times n ≠ none ∧ dir = p.layout.cache.classesDir n := by
    rw [sortedDirectories, List.mem_mergeSort]
    exact h.mem_registered h₀.begins hms dir
  have hlength : (sortedDirectories w.registered).length + w.files.fileCount (L ++ metadataNames) =
      packagedFiles L w := by
    rw [sortedDirectories, List.length_mergeSort]
    rfl
  obtain ⟨t', hpackage, hpackaged⟩ := run_package (w := w₁) hfit (h.stocked hapart h₀.begins hcache)
    hpaved hempty (hmade.packs htakes) hx hdirs
  rw [hlength] at hpackage
  obtain ⟨log, hend⟩ := run_reportEnd ⟨reports, scope, packagedFiles L w⟩
    { w₁ with
      files := t'
      log := w₁.log ++ [.packaged p.layout.outputClasses.text (packagedFiles L w)] }
  refine ⟨⟨t', w₁.scopes, w.registered, log, w.now⟩, ?_, hpackaged, ⟨s, hs, rfl⟩, rfl, rfl⟩
  rw [closing, Attempt.run_bind_ok hlock, Attempt.run_bind_ok (Attempt.run_observe w₁),
    Attempt.run_bind_ok hpackage, Attempt.run_bind_ok hend]
  rfl

/-- A batch without scripts closes in any world where there is no metadata to package, and no file
changes. -/
theorem run_closing_nil {s : Scope} (hs : w.scopes.scope? scope = some s) (hopen : s.locked = false)
    (hregistered : w.registered = [])
    (hnone : w.files.isDirectory p.layout.cache.metadataRoot = false) :
    ∃ w', Job.run (p.closing scope []).run w = (.ok ⟨[], scope, 0⟩, w') ∧ w'.files = w.files := by
  let w₁ : World := { w with
    scopes := w.scopes.set scope { s with locked := true }
    log := w.log ++ [.scopeLocked s.name] }
  have hlock : Job.run (Attempt.adapt BuildError.scope (Attempt.lockScope scope)).run w =
      (.ok (), w₁) :=
    Attempt.run_adapt (Attempt.run_lockScope hs hopen)
  have hpackage : Job.run (package (sortedDirectories w₁.registered) p.layout.cache.metadataRoot
      p.layout.outputClasses).run w₁ =
        (.ok 0, { w₁ with log := w₁.log ++ [.packaged p.layout.outputClasses.text 0] }) := by
    have hdirs : sortedDirectories w₁.registered = [] := by
      rw [show w₁.registered = [] from hregistered, sortedDirectories, List.mergeSort_nil]
    have hnone' : w₁.files.isDirectory p.layout.cache.metadataRoot = false := hnone
    have hpure : Job.run (pure [] : Attempt BuildError (List Nat)).run w₁ = (.ok [], w₁) := rfl
    rw [hdirs, package, List.mapM_nil, Attempt.run_bind_ok hpure,
      Attempt.run_bind_ok (Attempt.run_files w₁), hnone']
    rfl
  refine ⟨{ w₁ with
    log := w₁.log ++ [.packaged p.layout.outputClasses.text 0] ++ [.batchFinished 0 0 0] }, ?_, rfl⟩
  rw [closing, Attempt.run_bind_ok hlock, Attempt.run_bind_ok (Attempt.run_observe w₁),
    Attempt.run_bind_ok hpackage]
  rfl

end Precompiler

end ScriptPlugins
