import ScriptPlugins.Proofs.Adapter.Registry
import ScriptPlugins.Proofs.Batch.Applying
import ScriptPlugins.Proofs.Batch.Wrapping

/-!
# Mirroring — the directory for adapters shows how its batch ended

Whatever was in the directory before, and whatever the schedule, after a batch it holds one file for
each script that succeeded and nothing else, and it is read as the registry of just these adapters.
-/

namespace ScriptPlugins

open FileTree BuildLayout

variable {b : BuildLayout} {p : Precompiler} {l : Location} {t : FileTree} {as : List Adapter}
  {acc : List (Nat × Script)} {finished : List (Nat × ScriptResult)} {scripts : List Script}
  {root scope : Nat} {w v : World} {report : BatchReport} {q : Path}

/-! ## 1. Reports -/

/-- The scripts that succeeded: the id of each, and what the batch made of it. -/
def BatchReport.successes (r : BatchReport) : List (String × ScriptSuccess) :=
  r.scripts.filterMap fun s => s.result.toOption.map (s.scriptId, ·)

/-- The adapters of the scripts that succeeded. -/
def BatchReport.adapters (r : BatchReport) : List Adapter := r.successes.map fun s => s.2.adapter

theorem BatchReport.mem_successes {id : String} {success : ScriptSuccess} :
    (id, success) ∈ report.successes ↔ ⟨id, .ok success⟩ ∈ report.scripts := by
  rw [successes, List.mem_filterMap]
  constructor
  · rintro ⟨⟨id', result⟩, hmem, he⟩
    cases result with
    | error e => cases he
    | ok success' =>
      cases he
      exact hmem
  · exact fun hmem => ⟨_, hmem, rfl⟩

/-- Jobs that are finished once each have one result at each place. -/
theorem exists_results (h : (finished.map Prod.fst).Perm (acc.map Prod.fst))
    (hn : (acc.map Prod.fst).Nodup) :
    ∃ F : Nat → ScriptResult, finished.Perm (acc.map fun a => (a.1, F a.1)) := by
  have hresult (i : Nat) : ∃ r, i ∈ finished.map Prod.fst → (i, r) ∈ finished := by
    by_cases hi : i ∈ finished.map Prod.fst
    · obtain ⟨⟨_, r⟩, hr, rfl⟩ := List.mem_map.mp hi
      exact ⟨r, fun _ => hr⟩
    · -- There is no result at this place, and it is never asked for.
      exact ⟨.error (.scope (.released 0)), fun hmem => absurd hmem hi⟩
  choose F hF using hresult
  refine ⟨F, ?_⟩
  have hself : finished.map (fun r => (r.1, F r.1)) = finished := by
    refine (List.map_congr_left fun r hr => ?_).trans (List.map_id finished)
    exact List.inj_on_of_nodup_map (h.nodup_iff.mpr hn) (hF r.1 (List.mem_map_of_mem hr)) hr rfl
  have hperm := h.map fun i => (i, F i)
  rw [List.map_map, List.map_map] at hperm
  exact hself ▸ hperm

/-- The scripts that succeeded are among those that were accepted. -/
theorem successes_zipWith (F : Nat → Script → ScriptResult) (os : Owners)
    (ss : List Script) (k : Nat) :
    (ss.zipWith (fun s r => (⟨s.id, r⟩ : ScriptReport))
        (Reviewed.results F (os.review ss) k)).filterMap
        (fun s => s.result.toOption.map (s.scriptId, ·)) =
      (Reviewed.accepted (os.review ss) k).filterMap fun a =>
        (F a.1 a.2).toOption.map (a.2.id, ·) := by
  induction ss generalizing os k with
  | nil => rfl
  | cons s ss ih =>
    rw [Owners.review]
    split
    next e _ =>
      rw [Reviewed.accepted_cons_refused, ← ih os (k + 1)]
      rfl
    next =>
      rw [Reviewed.accepted_cons, List.filterMap_cons, ← ih (os.add s) (k + 1)]
      rfl

/-! ## 2. Directories that hold the files of some adapters -/

/-- The file of an adapter, as it stands in a directory. -/
def Adapter.entry (a : Adapter) : String × Entry := (a.fileName, .file a.print.toUTF8)

/-- A tree whose directory for adapters holds the files of some adapters, and nothing else.  The
path leads there if there are any. -/
structure BuildLayout.Mirrors (b : BuildLayout) (l : Location) (as : List Adapter) (t : FileTree) :
    Prop where
  sited : b.Sited l t
  takeable : Takeable b.adapters
  entries : ∀ f e, t.entry? (b.adaptersAt l ++ [f]) = some e ↔ (f, e) ∈ as.map Adapter.entry
  apart : as.Pairwise fun a a' => a.fileName ≠ a'.fileName ∧ a.scriptId ≠ a'.scriptId
  names : ∀ a ∈ as, a.name ≠ ""
  fits : ∀ a ∈ as, Fits (b.adapters.join a.fileName)
  found : as ≠ [] → t.walk l b.root.steps = .ok (leads l b.root.steps)

namespace BuildLayout.Mirrors

theorem nodup_fileNames (h : b.Mirrors l as t) : (as.map Adapter.fileName).Nodup :=
  List.pairwise_map.mpr (h.apart.imp And.left)

theorem nodup_scriptIds (h : b.Mirrors l as t) : (as.map Adapter.scriptId).Nodup :=
  List.pairwise_map.mpr (h.apart.imp And.right)

theorem perm_children (h : b.Mirrors l as t) :
    (t.children (b.adaptersAt l)).Perm (as.map Adapter.entry) := by
  have hchildren : (t.children (b.adaptersAt l)).Nodup := (nodup_children t _).of_map Prod.fst
  have hentries : (as.map Adapter.entry).Nodup := by
    refine List.Nodup.of_map Prod.fst ?_
    rw [List.map_map]
    exact h.nodup_fileNames
  exact (List.perm_ext_iff_of_nodup hchildren hentries).mpr fun x =>
    mem_children.trans (h.entries x.1 x.2)

/-- What the directory hands out are the files of the adapters.  Without any it may count as
missing. -/
theorem list (h : b.Mirrors l as t) : ∃ entries, entries.Perm (as.map Adapter.entry) ∧
    (t.list b.adapters = .ok entries ∨ entries = [] ∧ t.list b.adapters = .error .notFound) := by
  by_cases hroot : t.walk l b.root.steps = .ok (leads l b.root.steps)
  · exact ⟨_, (List.reverse_perm _).trans h.perm_children, .inl (h.sited.list h.takeable hroot).2⟩
  · obtain rfl : as = [] := not_not.mp fun hne => hroot (h.found hne)
    exact ⟨[], .nil, .inr ⟨rfl, h.sited.list_missing h.takeable hroot⟩⟩

/-- The file of one of the adapters is found. -/
theorem look (h : b.Mirrors l as t) {a : Adapter} (ha : a ∈ as) :
    t.look (b.adapters.join a.fileName) = .ok (.file a.print.toUTF8) := by
  have hentry := (h.entries a.fileName _).mpr (List.mem_map_of_mem ha)
  have hname : IsName a.fileName :=
    h.sited.proper.names (b.adaptersAt l ++ [a.fileName]) (by simp [hentry]) _ (by simp)
  obtain ⟨hplace, -⟩ := h.sited.list h.takeable (h.found (List.ne_nil_of_mem ha))
  refine look_of_locate
    (locate_eq (h.fits a ha) (Path.endsInSlash_join hname.step b.adapters) ?_) hentry
  rw [Path.steps_join hname, walk_append, (place_eq_ok.mp hplace).2]
  exact walk_name h.sited.directory hname

/-- Such a directory is read as the registry of its adapters. -/
theorem readRegistry (h : b.Mirrors l as t)
    (hids : ∀ a ∈ as, ∀ c ∈ a.scriptId.toList, Toml.isPrintable c = true) :
    ∃ registry, t.readRegistry b.adapters = .ok registry ∧
      ∀ (id : String) (a : Adapter), registry[id]? = some a ↔ a ∈ as ∧ a.scriptId = id := by
  obtain ⟨entries, hperm, hlist | ⟨rfl, hlist⟩⟩ := h.list
  · refine readRegistry_of_list hlist (fun n => ?_) (fun a ha =>
      readAdapter_of_look (h.look ha) (hids a ha)) h.names h.nodup_scriptIds
    rw [(hperm.map Prod.fst).mem_iff, List.map_map, List.mem_map]
    rfl
  · obtain rfl : as = [] := List.map_eq_nil_iff.mp (List.nil_perm.mp hperm)
    refine ⟨∅, by rw [FileTree.readRegistry, hlist], fun id a => ?_⟩
    rw [Std.ExtTreeMap.getElem?_empty]
    exact ⟨fun h => (by cases h), fun h => (by cases h.1)⟩

end BuildLayout.Mirrors

/-! ## 3. Batches -/

/-- The file of an adapter follows from the id of its script. -/
theorem Script.adapterFile_eq {s s' : Script} (h : s.id = s'.id) :
    s.adapterFile = s'.adapterFile := by
  rw [adapterFile, adapterFile, adapterName, adapterName, h]

namespace Precompiler

/-- What is known of a batch that has closed: what its scripts have left, and that this is what it
reports. -/
structure Wrapped (p : Precompiler) (l : Location) (scripts : List Script) (report : BatchReport)
    (v : World) (F : Nat → ScriptResult) (u : World) : Prop where
  prepared : p.layout.Prepared l u
  takeable : Takeable p.layout.adapters
  leaves : ∀ a ∈ acceptedOf scripts, a.2.Leaves p.layout l u (F a.1)
  nothing : ∀ m ∈ inside (p.layout.adaptersAt l),
    (∀ a ∈ acceptedOf scripts, m ≠ p.layout.adaptersAt l ++ [a.2.adapterFile]) →
      u.files.entry? m = none
  keeping : p.layout.Keeping l u.files v.files
  found : u.registered ≠ [] → v.files.walk l p.layout.root.steps = .ok (leads l p.layout.root.steps)
  successes : report.successes = (acceptedOf scripts).filterMap fun a =>
    (F a.1).toOption.map (a.2.id, ·)

variable {F : Nat → ScriptResult} {u : World}

/-- **How a batch ends that answers**, on any schedule. -/
theorem Schedules.wrapped (hproper : w.files.Proper) (hd : p.layout.Direct w.files.here)
    (h : p.Schedules root scripts w (.ok report) v) :
    ∃ F u, p.Wrapped w.files.here scripts report v F u := by
  generalize hr : Except.ok report = r at h
  cases h with
  | refused hopen => cases hr
  | @finished scope w₀ q hopen hsteps hover =>
    have hapart := allApart_acceptedOf scripts
    obtain ⟨hprepared, htake, hnothing⟩ := of_run_opening hproper hd hopen
    have hshelved := shelved hd hapart hprepared hnothing hsteps hover
    obtain ⟨F, hF⟩ := exists_results hshelved.numbers hapart.nodup
    obtain ⟨hreports, hkeeping, hfound⟩ :=
      of_run_closing hd hshelved.prepared (Prod.ext hr.symm rfl)
    rw [reportsOf_perm
      ((hF.append_left _).trans (Reviewed.perm_results (fun i _ => F i) _ 0))] at hreports
    refine ⟨F, q.world, hshelved.prepared, htake, fun a ha => ?_, hshelved.nothing,
      hkeeping, hfound, ?_⟩
    · exact hshelved.leaves (a.1, F a.1) (hF.symm.subset (List.mem_map_of_mem ha)) a.2 ha
    · rw [BatchReport.successes, hreports]
      exact successes_zipWith (fun i _ => F i) [] scripts 0

namespace Wrapped

variable (h : p.Wrapped l scripts report v F u)

include h

/-- A script that succeeded has left its adapter. -/
theorem leaves_success {a : Nat × Script} (ha : a ∈ acceptedOf scripts) {x : String × ScriptSuccess}
    (hx : (F a.1).toOption.map (a.2.id, ·) = some x) :
    F a.1 = .ok x.2 ∧ a.2.id = x.1 ∧ a.2.LeavesAdapter p.layout l u x.2 := by
  have hleaves := h.leaves a ha
  cases hF : F a.1 with
  | error e =>
    rw [hF] at hx
    cases hx
  | ok success =>
    rw [hF] at hx hleaves
    cases hx
    exact ⟨rfl, rfl, hleaves⟩

theorem mem_successes {id : String} {success : ScriptSuccess} : (id, success) ∈ report.successes ↔
    ∃ a ∈ acceptedOf scripts, F a.1 = .ok success ∧ a.2.id = id ∧
      a.2.LeavesAdapter p.layout l u success := by
  rw [h.successes, List.mem_filterMap]
  constructor
  · exact fun ⟨a, ha, hx⟩ => ⟨a, ha, h.leaves_success ha hx⟩
  · rintro ⟨a, ha, hF, rfl, -⟩
    exact ⟨a, ha, by rw [hF]; rfl⟩

theorem exists_success {a : Adapter} (ha : a ∈ report.adapters) :
    ∃ s ∈ scripts, ∃ success : ScriptSuccess,
    success.adapter = a ∧ s.LeavesAdapter p.layout l u success := by
  obtain ⟨⟨id, success⟩, hmem, rfl⟩ := List.mem_map.mp ha
  obtain ⟨a', ha', -, -, hleaves⟩ := h.mem_successes.mp hmem
  exact ⟨a'.2, ((Owners.accepted_review [] scripts 0).2 a' ha').2.1, success, rfl, hleaves⟩

/-- What stands in the directory for adapters is the file of a script that succeeded. -/
theorem exists_of_entry {f : String} {e : Entry}
    (hentry : u.files.entry? (p.layout.adaptersAt l ++ [f]) = some e) :
    ∃ a ∈ report.adapters, a.entry = (f, e) := by
  -- Only the scripts that were accepted have files there.
  obtain ⟨a, ha, rfl⟩ : ∃ a ∈ acceptedOf scripts, a.2.adapterFile = f := by
    by_contra hother
    rw [h.nothing _ (mem_inside (List.cons_ne_nil f [])) fun a ha he =>
      hother ⟨a, ha, (List.singleton_injective (List.append_cancel_left he)).symm⟩] at hentry
    cases hentry
  have hleaves := h.leaves a ha
  cases hF : F a.1 with
  | error e =>
    rw [hF] at hleaves
    cases hentry.symm.trans hleaves
  | ok success =>
    rw [hF] at hleaves
    have hleft : a.2.LeavesAdapter p.layout l u success := hleaves
    refine ⟨success.adapter, List.mem_map_of_mem (h.mem_successes.mpr ⟨a, ha, hF, rfl, hleft⟩), ?_⟩
    have hthere := hleft.entry
    rw [hleft.fileName, hentry] at hthere
    rw [Adapter.entry, hleft.fileName, Option.some.inj hthere]

/-- **The directory for adapters holds the files of the scripts that succeeded**, and nothing
else. -/
theorem mirrors : p.layout.Mirrors l report.adapters v.files where
  sited := h.keeping.sited
  takeable := h.takeable
  entries f e := by
    rw [h.keeping.adapters _ (mem_inside (List.cons_ne_nil f [])), List.mem_map]
    refine ⟨h.exists_of_entry, ?_⟩
    rintro ⟨a, ha, he⟩
    obtain ⟨s, -, success, rfl, hleaves⟩ := h.exists_success ha
    obtain ⟨rfl, rfl⟩ := Prod.mk.inj he
    exact hleaves.entry
  apart := by
    rw [BatchReport.adapters, List.pairwise_map, h.successes, List.pairwise_filterMap]
    refine (allApart_acceptedOf scripts).imp_of_mem fun {a a'} ha ha' hapart x hx x' hx' => ?_
    obtain ⟨-, -, hleaves⟩ := h.leaves_success ha hx
    obtain ⟨-, -, hleaves'⟩ := h.leaves_success ha' hx'
    rw [hleaves.fileName, hleaves'.fileName, hleaves.scriptId, hleaves'.scriptId]
    exact ⟨hapart.adapterFile_ne, fun he => hapart.adapterFile_ne (Script.adapterFile_eq he)⟩
  names a ha := by
    obtain ⟨s, -, success, rfl, hleaves⟩ := h.exists_success ha
    rw [hleaves.name, Script.adapterName]
    simp
  fits a ha := by
    obtain ⟨s, -, success, rfl, hleaves⟩ := h.exists_success ha
    exact hleaves.fits
  found hne := by
    obtain ⟨a, ha⟩ := List.exists_mem_of_ne_nil _ hne
    obtain ⟨s, -, success, rfl, hleaves⟩ := h.exists_success ha
    exact h.found hleaves.registered

end Wrapped

/-- **The directory for adapters mirrors the batch.**  Take any proper tree, any batch that answers
and any schedule, whatever the directory held before.  It holds one file for each script that
succeeded, under a name of its own and with the text of its adapter, and nothing else.  If the ids
can stand in a comment it is read as the registry of the adapters that the batch reports.  Only the
path to the root of the build must not lead through the directory, for each directory on a path is
made. -/
theorem compileScripts_mirrors (hproper : w.files.Proper) (hd : p.layout.Direct w.files.here)
    (h : p.Schedules root scripts w (.ok report) v) :
    (report.adapters.map Adapter.fileName).Nodup ∧
      (∃ entries, entries.Perm (report.adapters.map Adapter.entry) ∧
        (v.files.list p.layout.adapters = .ok entries ∨
          entries = [] ∧ v.files.list p.layout.adapters = .error .notFound)) ∧
      (∀ id success, ⟨id, .ok success⟩ ∈ report.scripts → success.adapter.scriptId = id ∧
        ∃ s ∈ scripts, s.id = id ∧ success.adapter.fileName = s.adapterName ++ ".toml") ∧
      ((∀ s ∈ scripts, ∀ c ∈ s.id.toList, Toml.isPrintable c = true) →
        ∃ registry, v.files.readRegistry p.layout.adapters = .ok registry ∧
          ∀ (id : String) (a : Adapter), registry[id]? = some a ↔
            ∃ success, ⟨id, .ok success⟩ ∈ report.scripts ∧ success.adapter = a) := by
  obtain ⟨F, u, hwrapped⟩ := h.wrapped hproper hd
  have hmirrors := hwrapped.mirrors
  refine ⟨hmirrors.nodup_fileNames, hmirrors.list, fun id success hmem => ?_, fun hids => ?_⟩
  · obtain ⟨a, ha, -, rfl, hleaves⟩ :=
      hwrapped.mem_successes.mp (BatchReport.mem_successes.mpr hmem)
    exact ⟨hleaves.scriptId, a.2, ((Owners.accepted_review [] scripts 0).2 a ha).2.1, rfl,
      hleaves.fileName⟩
  · obtain ⟨registry, hread, hregistry⟩ := hmirrors.readRegistry fun a ha => by
      obtain ⟨s, hs, success, rfl, hleaves⟩ := hwrapped.exists_success ha
      exact hleaves.scriptId ▸ hids s hs
    refine ⟨registry, hread, fun id a => (hregistry id a).trans ⟨?_, ?_⟩⟩
    · rintro ⟨ha, rfl⟩
      obtain ⟨⟨id, success⟩, hmem, rfl⟩ := List.mem_map.mp ha
      obtain ⟨a, -, -, rfl, hleaves⟩ := hwrapped.mem_successes.mp hmem
      -- An adapter carries the id it is reported under.
      have hid : success.adapter.scriptId = a.2.id := hleaves.scriptId
      have hmem' : (success.adapter.scriptId, success) ∈ report.successes := hid ▸ hmem
      exact ⟨success, BatchReport.mem_successes.mp hmem', rfl⟩
    · rintro ⟨success, hmem, rfl⟩
      have hmem' := BatchReport.mem_successes.mpr hmem
      obtain ⟨a, -, -, rfl, hleaves⟩ := hwrapped.mem_successes.mp hmem'
      exact ⟨List.mem_map_of_mem hmem', hleaves.scriptId⟩

end Precompiler

/-! ## 4. Proper trees -/

/-- No job spoils the files, or leads elsewhere. -/
theorem FileTree.Proper.run {α : Type} (h : w.files.Proper) (j : Job α) :
    (j.run w).2.files.Proper ∧ (j.run w).2.files.here = w.files.here := by
  induction j generalizing w with
  | done a => exact ⟨h, rfl⟩
  | next op rest ih =>
    have hstep : (op.perform w).2.files.Proper ∧ (op.perform w).2.files.here = w.files.here := by
      cases op with
      | change c => exact h.apply rfl
      | _ => rw [Op.files_perform rfl w]; exact ⟨h, rfl⟩
    obtain ⟨hproper, hhere⟩ := ih (op.perform w).1 hstep.1
    exact ⟨hproper, hhere.trans hstep.2⟩

namespace Precompiler

theorem proper_bareWorld : BuildLayout.bareWorld.files.Proper :=
  FileTree.Proper.empty.put (k := []) (by decide) rfl (by decide +kernel) _

/-- The theorem for the first batch of a build, of which one script succeeds. -/
theorem compileScripts_mirrors_two :
    let w := (Job.run BuildLayout.small.cache.create.run BuildLayout.bareWorld).2
    ∃ report v, ∃ (success : ScriptSuccess) (registry : AdapterRegistry),
      smallPrecompiler.Schedules 0 smallScripts w (.ok report) v ∧
      (w.files.Proper ∧ smallPrecompiler.layout.Direct w.files.here) ∧
      v.files.readRegistry BuildLayout.small.adapters = .ok registry ∧
      registry["one"]? = some success.adapter := by
  intro w
  obtain ⟨report, v, success, hschedule, hsuccess⟩ := smallScripts_succeeds
  obtain ⟨hproper, hhere⟩ := proper_bareWorld.run BuildLayout.small.cache.create.run
  have hd : smallPrecompiler.layout.Direct w.files.here := by
    rw [hhere]
    decide +kernel
  obtain ⟨-, -, -, hregistry⟩ := compileScripts_mirrors hproper hd hschedule
  have hids : ∀ s ∈ smallScripts, s.id.toList.all Toml.isPrintable = true := by decide +kernel
  obtain ⟨registry, hread, hregistry⟩ := hregistry fun s hs => List.all_eq_true.mp (hids s hs)
  exact ⟨report, v, success, registry, hschedule, ⟨hproper, hd⟩, hread,
    (hregistry _ _).mpr ⟨success, List.mem_of_getElem? hsuccess, rfl⟩⟩

/-! ## 5. A root that is reached through the adapters -/

/-- A build to whose root the path leads through its own adapters. -/
def windingPrecompiler : Precompiler :=
  ⟨⟨⟨"generated-classes/script-plugins/adapters/x.toml/../../../.."⟩⟩, ⟨fun _ _ => none⟩, 1⟩

/-- A world in which that path stands. -/
def windingWorld : World :=
  let t := FileTree.empty ["generated-classes", "script-plugins", "adapters", "x.toml"]
  { BuildLayout.bareWorld with files := { t with here := [] } }

/-- The steps of that path behind the first one. -/
def windingSteps : List String := ["script-plugins", "adapters", "x.toml", "..", "..", "..", ".."]

/-- What is left of the files when the adapters have been removed. -/
def windingRest : FileTree :=
  (windingWorld.files.put packagedNames .directory).eraseBelow adaptersNames

/-- The files when the way to the adapters has been made again. -/
structure Rewound (p : Precompiler) (t : FileTree) : Prop where
  made : MadeAlong ["generated-classes"] ((windingSteps ++ adaptersNames).map Path.component)
    windingRest t
  place : t.place p.layout.adapters = .ok adaptersNames

section

-- The build is any one with that root: its paths are told by their steps, and no text is taken
-- apart.
variable (hroot : p.layout.root = Path.down ⟨"generated-classes"⟩ windingSteps)
  (hroom : Room p.layout.root 1024)

include hroot in
theorem steps_winding :
    p.layout.root.steps = .name "generated-classes" :: windingSteps.map Path.component := by
  rw [hroot, Path.steps_down_steps (by decide)]
  rfl

include hroot hroom in
theorem run_resetOutput_winding : ∃ t, p.Rewound t ∧ ∀ v : World, v.files = windingWorld.files →
    Job.run p.resetOutput.run v = (.ok (), { v with files := t }) := by
  have hfit : p.layout.Fitting := .of_room hroom
  have hsteps := steps_winding hroot
  -- The packaged classes are missing, and are made.
  have hpackaged : windingWorld.files.walk windingWorld.files.here p.layout.outputClasses.steps =
      .ok packagedNames := by
    rw [steps_outputClasses, hsteps]
    decide +kernel
  have hnone : windingWorld.files.entry? packagedNames = none := by decide +kernel
  have hslash : p.layout.outputClasses.endsInSlash = false :=
    endsInSlash_down isName_packagedNames (by decide) p.layout.root
  have h₁ : windingWorld.files.removeDirectory p.layout.outputClasses =
      (.error .notFound, windingWorld.files) :=
    removeDirectory_nothing (locate_eq hfit.packaged hslash hpackaged) hnone
  have h₂ : windingWorld.files.makeDirectories p.layout.outputClasses =
      (.ok (), windingWorld.files.put packagedNames .directory) :=
    makeDirectories_of_place hfit.packaged.text_ne (place_eq hfit.packaged hpackaged) hnone
  -- Once the adapters are removed, their own path leads nowhere.
  have h₃ : (windingWorld.files.put packagedNames .directory).removeDirectory p.layout.adapters =
      (.ok (), windingRest) := by
    have hslash' : p.layout.adapters.endsInSlash = false :=
      endsInSlash_down isName_adaptersNames (by decide) p.layout.root
    refine removeDirectory_winding (locate_eq hfit.adapters hslash' ?_) (by decide +kernel)
      (place_eq hfit.adapters ?_)
    · rw [steps_adapters, hsteps]
      decide +kernel
    · rw [steps_adapters, hsteps]
      decide +kernel
  -- So each directory on it is made, and the last ones of them are there already.
  have hstart : windingRest.walk windingRest.here (Path.mk "generated-classes").steps =
      .ok ["generated-classes"] := by decide +kernel
  have hclear :
      ∀ m ∈ onWay ["generated-classes"] ((windingSteps ++ adaptersNames).map Path.component),
      windingRest.entry? m = none ∨ windingRest.entry? m = some .directory := by
    have hall : ∀ ps ∈ ((windingSteps ++ adaptersNames).map Path.component).inits,
        windingRest.entry? (leads ["generated-classes"] ps) = none ∨
          windingRest.entry? (leads ["generated-classes"] ps) = some .directory := by decide +kernel
    rintro m ⟨ps, hps, rfl⟩
    exact hall ps ((List.mem_inits ..).mpr hps)
  have hpath : p.layout.adapters =
      Path.down ⟨"generated-classes"⟩ (windingSteps ++ adaptersNames) := by
    rw [Path.down_append, ← hroot]
    exact adapters_eq p.layout
  obtain ⟨t, h₄, hmade⟩ := makeDirectories_along hstart (by decide +kernel) (by decide) (by decide)
    (hpath ▸ hfit.adapters) hclear
  rw [← hpath] at h₄
  obtain ⟨m, hm, -⟩ := place_of_makeDirectories hfit.adapters.text_ne h₄
  have hlead : m = adaptersNames := by
    rw [leads_of_place hm, hmade.here, steps_adapters, hsteps]
    decide +kernel
  refine ⟨t, ⟨hmade, hlead ▸ hm⟩, fun v hv => ?_⟩
  rw [← hv] at h₁ h₂ h₃
  rw [resetOutput, Attempt.run_bind_ok (run_resetDirectory_of h₁ (.inr rfl) h₂)]
  exact run_resetDirectory_of (w := { v with files := v.files.put packagedNames .directory }) h₃
    (.inl rfl) h₄

include hroot in
theorem Rewound.metadata (h : p.Rewound t) : t.isDirectory p.layout.cachedMetadata = false := by
  have hn : ∀ s ∈ metadataNames, IsName s := by decide
  have hsteps : (p.layout.root.down metadataNames).steps = p.layout.root.steps ++
      metadataNames.map .name :=
    Path.steps_down (fun s hs => (hn s hs).part) p.layout.root
  have hway : metadataNames ∉
      onWay ["generated-classes"] ((windingSteps ++ adaptersNames).map Path.component) := by
    have hall : ∀ ps ∈ ((windingSteps ++ adaptersNames).map Path.component).inits,
        metadataNames ≠ leads ["generated-classes"] ps := by decide +kernel
    rintro ⟨ps, hps, he⟩
    exact hall ps ((List.mem_inits ..).mpr hps) he
  have hrest : windingRest.entry? metadataNames = none := by decide +kernel
  by_contra hd
  obtain ⟨m, hm, hentry⟩ := place_of_isDirectory ((Bool.not_eq_false _).mp hd)
  have hlead : m = metadataNames := by
    have hm' : t.place (p.layout.root.down metadataNames) = .ok m := hm
    rw [leads_of_place hm', h.made.here, hsteps, steps_winding hroot]
    decide +kernel
  rw [hlead, h.made.others _ hway, hrest] at hentry
  cases hentry

include hroom in
theorem Rewound.registry (h : p.Rewound t) : (t.readRegistry p.layout.adapters).isOk = false := by
  have hd : t.entry? adaptersNames = some .directory :=
    h.made.made _ ⟨[.name "script-plugins", .name "adapters"], by decide +kernel, rfl⟩
  have hx : t.entry? (adaptersNames ++ ["x.toml"]) = some .directory :=
    h.made.made _ ⟨[.name "script-plugins", .name "adapters", .name "x.toml"], by decide +kernel,
      rfl⟩
  have hslash : p.layout.adapters.endsInSlash = false :=
    endsInSlash_down isName_adaptersNames (by decide) p.layout.root
  have hlocate : t.locate p.layout.adapters = .ok adaptersNames :=
    locate_eq_ok.mpr ⟨h.place, fun hs => by rw [hslash] at hs; cases hs⟩
  have hname : IsName "x.toml" := by decide
  have hroom' : Room p.layout.adapters 960 :=
    ((hroom.join (m := 1000) (by decide +kernel) (by decide +kernel)).join (m := 980)
      (by decide +kernel) (by decide +kernel)).join (by decide +kernel) (by decide +kernel)
  have hfits : Fits (p.layout.adapters.join "x.toml") :=
    (hroom'.join (m := 0) (by decide +kernel) (by decide +kernel)).fits
  refine readRegistry_of_directory (e := ("x.toml", .directory)) (list_of_locate hlocate hd)
    (List.mem_reverse.mpr (mem_children.mpr hx)) (by decide +kernel) ?_
  refine look_of_locate (locate_eq hfits (Path.endsInSlash_join hname.step _) ?_) hx
  rw [Path.steps_join hname, walk_append, (place_eq_ok.mp h.place).2]
  exact walk_name hd hname

end

theorem isOk_winding :
    let result := Job.run (windingPrecompiler.compileScripts 0 []).run windingWorld
    (result.1.isOk && !(result.2.files.readRegistry windingPrecompiler.layout.adapters).isOk) =
      true := by
  have hroot : windingPrecompiler.layout.root = Path.down ⟨"generated-classes"⟩ windingSteps := by
    rw [← Path.join_joinWith _ (by decide) (by decide)]
    decide +kernel
  have hroom : Room windingPrecompiler.layout.root 1024 :=
    ⟨by decide +kernel, by decide +kernel, by decide +kernel⟩
  let core := Scope.fresh "core" none
  obtain ⟨t, hrewound, hreset⟩ := run_resetOutput_winding hroot hroom
  obtain ⟨text, htext⟩ := exists_ok (x := (windingWorld.scopes.grown 0 core batchScopeName).path
    windingWorld.scopes.slots.length) (by decide +kernel)
  obtain ⟨log, hopen⟩ := run_opening (p := windingPrecompiler) rfl htext (hreset _ rfl) []
  let w₁ : World := { windingWorld.begun 0 core with files := t, log }
  have hreports :
      Job.run (ExceptT.lift ((Owners.review [] []).mapM (windingPrecompiler.reportOn 1)) :
      Attempt BuildError (List ScriptReport)).run w₁ = (.ok [], w₁) := rfl
  have hscope : w₁.scopes.scope? 1 = some (.fresh batchScopeName (some 0)) := rfl
  obtain ⟨w₂, hclose, hfiles⟩ := run_closing_nil (p := windingPrecompiler) hscope rfl rfl
    (hrewound.metadata hroot)
  have hrun : Job.run (windingPrecompiler.compileScripts 0 []).run windingWorld =
      (.ok ⟨[], 1, 0⟩, w₂) := by
    rw [compileScripts, Attempt.run_bind_ok hopen]
    exact (Attempt.run_bind_ok hreports).trans hclose
  have hrefused := hrewound.registry hroom
  rw [hrun]
  show (true && !(w₂.files.readRegistry _).isOk) = true
  rw [hfiles, hrefused]
  rfl

/-- Its adapters cannot be read after a batch without scripts, for a directory on the way has been
made among them again. -/
theorem readRegistry_winding :
    ∃ report v e, windingPrecompiler.Schedules 0 [] windingWorld (.ok report) v ∧
      v.files.readRegistry windingPrecompiler.layout.adapters = .error e := by
  have hresult := Bool.and_eq_true_iff.mp isOk_winding
  obtain ⟨report, hreport⟩ := exists_ok hresult.1
  obtain ⟨e, he⟩ := exists_error ((Bool.not_eq_true' _).mp hresult.2)
  exact ⟨report, _, e, hreport ▸ windingPrecompiler.schedules_compileScripts 0 [] windingWorld, he⟩

end Precompiler

end ScriptPlugins
