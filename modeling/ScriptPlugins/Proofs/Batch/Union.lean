import ScriptPlugins.Proofs.Batch.Serving

/-!
# Union — what is packaged is a disjoint union

Many directories are copied into one.  Nothing is overwritten on the way, as each class has a file
name of its own and no class file has the name of the directory for metadata.  So the packaged
directory holds one class file for each phase that was compiled or reused, a copy of all metadata,
and nothing from earlier batches.
-/

namespace ScriptPlugins

open FileTree BuildLayout

/-! ## 1. Copies -/

namespace FileTree

variable {t : FileTree} {m : Location} {source : Path}

/-- The files that are copied from one path to another: where each of them goes, and what is in
it. -/
def copiesFrom (t : FileTree) (source dest : Path) : List (Path × ByteArray) :=
  ((t.walkFrom source).toOption.getD []).filterMap fun x => x.2.bytes?.map (dest.join x.1, ·)

theorem copiesFrom_eq (h : t.locate source = .ok m)
    (hd : t.entry? m = some .directory) (dest : Path) : t.copiesFrom source dest =
      (t.filesBelow m).map fun x => (dest.join (Text.joinWith "/" x.1), x.2) := by
  rw [copiesFrom, walkFrom_of_locate h hd, filesBelow, Except.toOption, Option.getD_some,
    List.filterMap_map, List.filterMap_cons_none rfl, List.map_filterMap]
  refine List.filterMap_congr fun x _ => ?_
  rw [Option.map_map]
  rfl

end FileTree

/-- The files that are packaged: where each of them goes, and what is in it. -/
def packagedCopies (t : FileTree) (dirs : List Path) (metadataRoot dest : Path) :
    List (Path × ByteArray) :=
  (dirs.flatMap fun dir => t.copiesFrom dir dest) ++
    t.copiesFrom metadataRoot (dest.join packagedMetadata)

/-! ## 2. The union -/

variable {b : BuildLayout} {L : Location} {made : String → Option Made} {ms : List Made}
  {t : FileTree}

/-- The packaged directory of a build holds the classes of some entries of its cache, a copy of all
metadata, and nothing else. -/
structure BuildLayout.Unites (b : BuildLayout) (L : Location) (ms : List Made) (t : FileTree) :
    Prop where
  paved : Paved L packagedNames t
  classes : ∀ m ∈ ms,
    t.entry? (L ++ packagedNames ++ [classFileName m.name]) = some (.file m.compiled.print.toUTF8)
  metadata : ∀ r, t.entry? (L ++ packagedNames ++ packagedMetadata :: r) =
    t.entry? (L ++ metadataNames ++ r)
  nothing : ∀ s r, s ≠ packagedMetadata → (∀ m ∈ ms, s :: r ≠ [classFileName m.name]) →
    t.entry? (L ++ packagedNames ++ s :: r) = none

namespace BuildLayout

/-- All metadata is kept in files of one name, each in the directory of an entry. -/
theorem Stocked.of_metadata_file (h : b.Stocked L made t) {r : Location} {bytes : ByteArray}
    (hr : t.entry? (L ++ metadataNames ++ r) = some (.file bytes)) :
    ∃ n m, made n = some m ∧ r = [n, metadataFileName] := by
  cases r with
  | nil =>
    rw [List.append_nil, h.metadataRoot.directory (by decide)] at hr
    cases hr
  | cons n r =>
    have hbox := h.metadata n r
    rw [List.append_assoc, List.singleton_append, hr] at hbox
    rcases Box.eq_of_entry? (b := (Boxes.ofMade (made n)).metadata) (f := metadataFileName) (r := r)
      (by rw [← hbox]; simp) with rfl | rfl
    · cases hm : made n <;> rw [hm] at hbox <;> cases hbox
    · cases hm : made n with
      | none => rw [hm, Boxes.ofMade, Boxes.none, Box.entry?_missing] at hbox; cases hbox
      | some m => exact ⟨n, m, hm, rfl⟩

/-- The files of the packaged directory are the class files and those of the metadata. -/
theorem Unites.filesBelow (h : b.Unites L ms t) (hnodup : (ms.map Made.name).Nodup)
    (hroot : t.entry? (L ++ metadataNames) = some .directory) :
    (t.filesBelow (L ++ packagedNames)).Perm
      (ms.map (fun m => ([classFileName m.name], m.compiled.print.toUTF8)) ++
        (t.filesBelow (L ++ metadataNames)).map fun x => (packagedMetadata :: x.1, x.2)) := by
  -- Each of these locations stands there once: class files differ, and none is the metadata
  -- directory.
  have hlocations : ((ms.map (fun m => ([classFileName m.name], m.compiled.print.toUTF8)) ++
      (t.filesBelow (L ++ metadataNames)).map fun x => (packagedMetadata :: x.1, x.2)).map
        Prod.fst).Nodup := by
    have hclasses := hnodup.map (f := fun n => [classFileName n]) fun _ _ he =>
      classFileName_inj (List.cons.inj he).1
    have hmetadata := (nodup_filesBelow t (L ++ metadataNames)).map
      (f := fun r => packagedMetadata :: r) fun _ _ he => (List.cons.inj he).2
    rw [List.map_map] at hclasses hmetadata
    rw [List.map_append, List.map_map, List.map_map, List.nodup_append]
    refine ⟨hclasses, hmetadata, ?_⟩
    rintro _ hl _ hr rfl
    obtain ⟨m, -, rfl⟩ := List.mem_map.mp hl
    obtain ⟨x, -, he⟩ := List.mem_map.mp hr
    exact classFileName_ne m.name (List.cons.inj he).1.symm
  rw [List.perm_ext_iff_of_nodup (.of_map Prod.fst (nodup_filesBelow t _))
    (.of_map Prod.fst hlocations)]
  rintro ⟨r, bytes⟩
  rw [mem_filesBelow, List.mem_append]
  constructor
  · rintro ⟨hr, he⟩
    obtain ⟨s, r, rfl⟩ := List.exists_cons_of_ne_nil hr
    by_cases hs : s = packagedMetadata
    · subst hs
      rw [h.metadata] at he
      refine .inr (List.mem_map.mpr ⟨(r, bytes), mem_filesBelow.mpr ⟨?_, he⟩, rfl⟩)
      rintro rfl
      rw [List.append_nil, hroot] at he
      cases he
    · by_cases hclass : ∀ m ∈ ms, s :: r ≠ [classFileName m.name]
      · rw [h.nothing s r hs hclass] at he
        cases he
      · obtain ⟨m, hm, hsr⟩ : ∃ m ∈ ms, s :: r = [classFileName m.name] := by simpa using hclass
        rw [hsr, h.classes m hm] at he
        cases he
        exact .inl (List.mem_map.mpr ⟨m, hm, by rw [hsr]⟩)
  · rintro (hmem | hmem)
    · obtain ⟨m, hm, he⟩ := List.mem_map.mp hmem
      cases he
      exact ⟨by simp, h.classes m hm⟩
    · obtain ⟨⟨r', bytes'⟩, hx, he⟩ := List.mem_map.mp hmem
      cases he
      exact ⟨by simp, (h.metadata r').trans (mem_filesBelow.mp hx).2⟩

/-! ## 3. Where the copies go -/

/-- Where a class is copied to. -/
theorem Unites.locate_class (h : b.Unites L ms t) (hstands : Standing (inside L) t b.root L)
    {n : String} (hpacks : b.Packs n) :
    t.locate (b.outputClasses.join (classFileName n)) =
      .ok (L ++ packagedNames ++ [classFileName n]) := by
  have hdest : b.outputClasses.join (classFileName n) =
      b.root.down (packagedNames ++ [classFileName n]) :=
    (Path.down_concat b.root packagedNames (classFileName n)).symm
  have hnames : ∀ s ∈ packagedNames ++ [classFileName n], IsName s := by
    intro s hs
    rcases List.mem_append.mp hs with hs | hs
    · exact (by decide : ∀ s ∈ packagedNames, IsName s) s hs
    · exact List.mem_singleton.mp hs ▸ hpacks.cache.file
  rw [List.append_assoc, hdest]
  exact locate_down hstands hnames (by simp) (hdest ▸ hpacks.packagedClass)
    (h.paved.way.concat (.inr (h.paved.directory (by decide))) _)

/-- Where the metadata of an entry is copied to. -/
theorem Unites.locate_metadata (h : b.Unites L ms t) (hstocked : b.Stocked L made t) {n : String}
    {m : Made} (hm : made n = some m) (hpacks : b.Packs n) :
    t.locate ((b.outputClasses.join packagedMetadata).join
        (Text.joinWith "/" [n, metadataFileName])) =
      .ok (L ++ packagedNames ++ [packagedMetadata, n, metadataFileName]) := by
  have hmeta : b.outputClasses.join packagedMetadata =
      b.root.down (packagedNames ++ [packagedMetadata]) :=
    (Path.down_concat b.root packagedNames packagedMetadata).symm
  have hsteps : ∀ s ∈ [n, metadataFileName], IsName s := by
    simpa using ⟨hpacks.cache.isName, Cache.isName_metadata⟩
  have hdest : (b.outputClasses.join packagedMetadata).join
      (Text.joinWith "/" [n, metadataFileName]) =
      b.root.down (packagedNames ++ [packagedMetadata] ++ [n] ++ [metadataFileName]) := by
    rw [hmeta, Path.join_joinWith _ (by simp) fun s hs => (hsteps s hs).step, ← Path.down_append]
    rfl
  have hnames : ∀ s ∈ packagedNames ++ [packagedMetadata] ++ [n] ++ [metadataFileName],
      IsName s := by
    rw [List.append_assoc, List.append_assoc, ← List.append_assoc, List.forall_mem_append]
    exact ⟨by decide, hsteps⟩
  -- The directories on the way are copies of the metadata root and of the directory of the entry.
  have hroot : t.entry? (L ++ (packagedNames ++ [packagedMetadata])) = some .directory := by
    rw [← List.append_assoc, h.metadata, List.append_nil]
    exact hstocked.metadataRoot.directory (by decide)
  have hentry : t.entry? (L ++ (packagedNames ++ [packagedMetadata] ++ [n])) = some .directory := by
    have hstores := hstocked.metadata n
    rw [hm] at hstores
    rw [List.append_assoc, ← List.append_assoc, List.singleton_append, h.metadata]
    exact hstores.directory
  have hway : Way t L (packagedNames ++ [packagedMetadata] ++ [n] ++ [metadataFileName]) :=
    ((h.paved.way.concat (.inr (h.paved.directory (by decide))) _).concat (.inr hroot) _).concat
      (.inr hentry) _
  rw [hdest, locate_down hstocked.stands hnames (by simp) hpacks.packagedFile hway]
  simp

/-- The one file that is copied for a class. -/
theorem Unites.copies_class (h : b.Unites L ms t) (hstocked : b.Stocked L made t) {m : Made}
    (hm : made m.name = some m) (hpacks : b.Packs m.name) :
    (t.copiesFrom (b.cache.classesDir m.name) b.outputClasses).map (fun c => (t.locate c.1, c.2)) =
      [(.ok (L ++ packagedNames ++ [classFileName m.name]), m.compiled.print.toUTF8)] := by
  have hstores : t.Stores (L ++ classesNames ++ [m.name]) (classFileName m.name)
      (some (some m.compiled.print.toUTF8)) := by
    have hbox := hstocked.classes m.name
    rwa [hm] at hbox
  rw [copiesFrom_eq (hstocked.locate_classes hpacks) hstores.directory, hstores.filesBelow,
    List.map_singleton, List.map_singleton]
  show [(t.locate (b.outputClasses.join (classFileName m.name)), _)] = _
  rw [h.locate_class hstocked.stands hpacks]

/-- The files that are copied for all metadata. -/
theorem Unites.copies_metadata (h : b.Unites L ms t) (hstocked : b.Stocked L made t)
    (hfit : b.Fitting) (hpacks : ∀ n m, made n = some m → b.Packs n) :
    (t.copiesFrom b.cache.metadataRoot (b.outputClasses.join packagedMetadata)).map
        (fun c => (t.locate c.1, c.2)) =
      (t.filesBelow (L ++ metadataNames)).map fun x =>
        (.ok (L ++ packagedNames ++ packagedMetadata :: x.1), x.2) := by
  rw [copiesFrom_eq (hstocked.locate_metadata hfit) (hstocked.metadataRoot.directory (by decide)),
    List.map_map]
  refine List.map_congr_left fun x hx => ?_
  obtain ⟨r, bytes⟩ := x
  obtain ⟨n, m, hm, rfl⟩ := hstocked.of_metadata_file (mem_filesBelow.mp hx).2
  show (t.locate ((b.outputClasses.join packagedMetadata).join
    (Text.joinWith "/" [n, metadataFileName])), bytes) = _
  rw [h.locate_metadata hstocked hm (hpacks n m hm)]

/-- **Each file that is copied goes to a place of its own**: the copies are the files of the
packaged directory, in some order. -/
theorem Unites.copies (h : b.Unites L ms t) (hnodup : (ms.map Made.name).Nodup)
    (hstocked : b.Stocked L made t) (hfit : b.Fitting)
    (hpacks : ∀ n m, made n = some m → b.Packs n) (hmade : ∀ m ∈ ms, made m.name = some m)
    {dirs : List Path} (hdirs : dirs.Perm (ms.map fun m => b.cache.classesDir m.name)) :
    ((packagedCopies t dirs b.cache.metadataRoot b.outputClasses).map fun c =>
      (t.locate c.1, c.2)).Perm
      ((t.filesBelow (L ++ packagedNames)).map fun x =>
        (.ok (L ++ packagedNames ++ x.1), x.2)) := by
  have hclasses : ((dirs.flatMap fun dir => t.copiesFrom dir b.outputClasses).map
      fun c => (t.locate c.1, c.2)).Perm (ms.map fun m =>
        (.ok (L ++ packagedNames ++ [classFileName m.name]), m.compiled.print.toUTF8)) := by
    rw [List.map_flatMap]
    refine (hdirs.flatMap_right _).trans (.of_eq ?_)
    rw [List.flatMap_map, List.map_eq_flatMap]
    exact List.flatMap_congr fun m hm =>
      h.copies_class hstocked (hmade m hm) (hpacks m.name m (hmade m hm))
  have hfiles := (h.filesBelow hnodup (hstocked.metadataRoot.directory (by decide))).map
    fun x : Location × ByteArray =>
      ((.ok (L ++ packagedNames ++ x.1) : Except FileError Location), x.2)
  simp only [List.map_append, List.map_map, Function.comp_def] at hfiles
  rw [packagedCopies, List.map_append, h.copies_metadata hstocked hfit hpacks]
  exact (hclasses.append_right _).trans hfiles.symm

/-- The copies are files of their places, no two of them of one place, and there are as many as
files in the packaged directory. -/
theorem Unites.disjoint (h : b.Unites L ms t) (hnodup : (ms.map Made.name).Nodup)
    (hstocked : b.Stocked L made t) (hfit : b.Fitting)
    (hpacks : ∀ n m, made n = some m → b.Packs n) (hmade : ∀ m ∈ ms, made m.name = some m)
    {dirs : List Path} (hdirs : dirs.Perm (ms.map fun m => b.cache.classesDir m.name)) :
    let copies := packagedCopies t dirs b.cache.metadataRoot b.outputClasses
    (copies.map fun f => t.locate f.1).Nodup ∧ (∀ f ∈ copies, t.look f.1 = .ok (.file f.2)) ∧
      copies.length = t.fileCount (L ++ packagedNames) := by
  intro copies
  have hcopies : (copies.map fun f => (t.locate f.1, f.2)).Perm
      ((t.filesBelow (L ++ packagedNames)).map fun x => (.ok (L ++ packagedNames ++ x.1), x.2)) :=
    h.copies hnodup hstocked hfit hpacks hmade hdirs
  refine ⟨?_, fun f hf => ?_, ?_⟩
  · have hlocations := (nodup_filesBelow t (L ++ packagedNames)).map
      (f := fun r => (.ok (L ++ packagedNames ++ r) : Except FileError Location))
      fun _ _ he => List.append_cancel_left (Except.ok.inj he)
    have hplaces := hcopies.map Prod.fst
    rw [List.map_map] at hlocations
    simp only [List.map_map, Function.comp_def] at hplaces hlocations
    exact hplaces.nodup_iff.mpr hlocations
  · have hmem : (t.locate f.1, f.2) ∈ copies.map fun f => (t.locate f.1, f.2) :=
      List.mem_map_of_mem (f := fun f : Path × ByteArray => (t.locate f.1, f.2)) hf
    obtain ⟨x, hx, he⟩ := List.mem_map.mp (hcopies.mem_iff.mp hmem)
    obtain ⟨hlocate, hbytes⟩ := Prod.mk.inj he
    have hentry := (mem_filesBelow.mp hx).2
    rw [hbytes] at hentry
    exact look_of_locate hlocate.symm hentry
  · have hlength := hcopies.length_eq
    rw [List.length_map, List.length_map, ← fileCount_eq] at hlength
    exact hlength

/-- There are as many files as classes, and those of all metadata. -/
theorem Unites.fileCount (h : b.Unites L ms t) (hnodup : (ms.map Made.name).Nodup)
    (hroot : t.entry? (L ++ metadataNames) = some .directory) :
    t.fileCount (L ++ packagedNames) = ms.length + t.fileCount (L ++ metadataNames) := by
  have hlength := (h.filesBelow hnodup hroot).length_eq
  rwa [List.length_append, List.length_map, List.length_map, ← fileCount_eq,
    ← fileCount_eq] at hlength

/-- A class that is packaged is the one of the cache. -/
theorem Unites.class_of_mem (h : b.Unites L ms t) (hstocked : b.Stocked L made t)
    (hpacks : ∀ n m, made n = some m → b.Packs n) (hmade : ∀ m ∈ ms, made m.name = some m)
    {n : String}
    (hn : n ∈ ms.map Made.name) :
    ∃ bytes, t.look (classFile (b.cache.classesDir n) n) = .ok (.file bytes) ∧
      t.entry? (L ++ packagedNames ++ [classFileName n]) = some (.file bytes) := by
  obtain ⟨m, hm, rfl⟩ := List.mem_map.mp hn
  have hcached := (hstocked.shelf reaches_owning).look_entryFiles trivial
    (hpacks m.name m (hmade m hm)).cache (hmade m hm)
  exact ⟨_, hcached.1, h.classes m hm⟩

end BuildLayout

/-! ## 4. Batches -/

namespace Precompiler

variable {p : Precompiler} {used : Set Script} {root scope : Nat} {times : Nat → Phase → Instant}
  {scripts : List Script} {w w₀ w₁ v : World} {r : Except BuildError BatchReport}

/-- What a batch leaves is packaged as a union of what its scripts have loaded. -/
theorem Leaving.unites (h : p.Leaving L scope made times scripts w₀ w₁ r v)
    (hms : p.Loaded scope (acceptedOf scripts) made times ms) : p.layout.Unites L ms v.files where
  paved := h.closed.packaged.paved
  classes m hm := by
    rw [h.closed.packaged.classes, hms.exports m hm]
    rfl
  metadata r := by
    -- Packaging leaves the metadata of the cache alone.
    have hsame : v.files.entry? (L ++ metadataNames ++ r) =
        w₁.files.entry? (L ++ metadataNames ++ r) :=
      h.closed.packaged.others.entries _
        (not_mem_subtree (not_prefix_at (by decide) L) (not_prefix_at (by decide) L))
    rw [h.closed.packaged.metadata, hsame]
  nothing s r hs hclass := by
    by_cases hn : ∀ n, s :: r ≠ [classFileName n]
    · exact h.closed.packaged.nothing s r hs hn
    · obtain ⟨n, hsr⟩ := not_forall_not.mp hn
      have hnone : p.exportsAfter scope (acceptedOf scripts) made times n = none := by
        by_contra hsome
        obtain ⟨m, hm, rfl⟩ := hms.only n hsome
        exact hclass m hm hsr
      rw [hsr, h.closed.packaged.classes, hnone]
      rfl

/-- The entries that are loaded are those of the classes that are served. -/
theorem Loaded.perm_served (hms : p.Loaded scope (acceptedOf scripts) made times ms)
    (hstocked : p.layout.Stocked L made t) (hmade : MadeFrom used made)
    (htakes : ∀ s ∈ used, p.layout.Takes s) (hs : ∀ s ∈ scripts, s ∈ used) :
    (p.served t scripts).Perm (ms.map Made.name) := by
  have hapart := allApart_acceptedOf scripts
  rw [served_eq hstocked hmade htakes hs,
    List.perm_ext_iff_of_nodup (nodup_servedBy _ _ hapart) hms.nodup]
  intro n
  rw [← exportsAfter_iff p scope times hapart]
  constructor
  · intro hn
    obtain ⟨m, hm, rfl⟩ := hms.only n hn
    exact List.mem_map_of_mem hm
  · intro hn
    obtain ⟨m, hm, rfl⟩ := List.mem_map.mp hn
    rw [hms.exports m hm]
    exact Option.some_ne_none _

/-- **What is packaged is a disjoint union.**  In a build that began empty a batch packages without
fail, whatever becomes of its scripts.  No two files are copied to one place, and then the packaged
directory holds the class file of each phase that was compiled or reused, just as it is in the
cache, a copy of all metadata, and nothing else.  As many files are there as the batch reports. -/
theorem compileScripts_packages_union (hfit : p.layout.Fitting)
    (htakes : ∀ s ∈ used, p.layout.Takes s) (h : p.layout.Reached L used w)
    (hs : ∀ s ∈ scripts, s ∈ used) (hr : p.Schedules root scripts w r v) :
    (w.scopes.isLive root = false → r = .error (.scope (.released root)) ∧ v = w) ∧
    (w.scopes.isLive root = true → ∃ report, r = .ok report ∧
      let c := p.layout.cache
      let names := p.served w.files scripts
      let copies := packagedCopies v.files (sortedDirectories v.registered) c.metadataRoot
        p.layout.outputClasses
      let D := L ++ packagedNames
      let M := L ++ metadataNames
      v.files.locate p.layout.outputClasses = .ok D ∧ v.files.locate c.metadataRoot = .ok M ∧
      names.Nodup ∧ v.registered.Perm (names.map c.classesDir) ∧
      (copies.map fun f => v.files.locate f.1).Nodup ∧
      (∀ f ∈ copies, v.files.look f.1 = .ok (.file f.2)) ∧
      v.files.entry? D = some .directory ∧
      (∀ n ∈ names, ∃ bytes, v.files.look (classFile (c.classesDir n) n) = .ok (.file bytes) ∧
        v.files.entry? (D ++ [classFileName n]) = some (.file bytes)) ∧
      (∀ l, v.files.entry? (D ++ packagedMetadata :: l) = v.files.entry? (M ++ l)) ∧
      (∀ s l, s ≠ packagedMetadata → (∀ n ∈ names, s :: l ≠ [classFileName n]) →
        v.files.entry? (D ++ s :: l) = none) ∧
      report.packagedFiles = v.files.fileCount D ∧ report.packagedFiles = copies.length) := by
  have horder := h.inOrder hfit htakes
  refine ⟨fun hroot => ?_, fun hroot => ?_⟩
  · have hopen := run_opening_released (p := p) hroot scripts
    cases hr with
    | refused hrefused =>
      rw [hopen] at hrefused
      cases hrefused
      exact ⟨rfl, rfl⟩
    | finished hfinished =>
      rw [hopen] at hfinished
      cases hfinished
  · obtain ⟨scope, made, w₀, hfound, ho⟩ := horder.opens_stocked hfit hroot
    have hworkers : (p.withWorkers p.workers).Schedules root scripts w r v := hr
    obtain ⟨times, w₁, hl⟩ := ho.leaving hfit htakes hs hworkers
    have hbegins := ho.opened.begins
    have hapart := allApart_acceptedOf scripts
    have hacc := mem_of_acceptedOf hs
    obtain ⟨ms, hms⟩ := hl.ended.exists_loaded hbegins.madeFrom htakes hapart hacc
    have hunites := hl.unites hms
    have hstocked :
        p.layout.Stocked L (p.madeAfter scope (acceptedOf scripts) made times) v.files :=
      (hl.ended.stocked hapart hbegins ho.cache).elsewhere
        (hl.closed.packaged.others.mono (packaged_subset L))
    have hmade := hl.ended.madeFrom hbegins.madeFrom htakes hapart hacc
    have hpacks := hmade.packs htakes
    have hserved := hms.perm_served hfound hbegins.madeFrom htakes hs
    have hregistered : v.registered.Perm (ms.map fun m => p.layout.cache.classesDir m.name) :=
      hl.closed.registered ▸ hl.ended.registered_perm_loaded hbegins hms
    have hdirs : (sortedDirectories v.registered).Perm (ms.map fun m =>
        p.layout.cache.classesDir m.name) :=
      (List.mergeSort_perm _ _).trans hregistered
    obtain ⟨hplaces, hfiles, hcount⟩ :=
      hunites.disjoint hms.nodup hstocked hfit hpacks hms.entries hdirs
    -- The batch counts what it registered and the metadata, which packaging leaves alone.
    have hmetadata : w₁.files.fileCount (L ++ metadataNames) =
        v.files.fileCount (L ++ metadataNames) :=
      fileCount_congr fun r =>
        congrArg _ ((hl.closed.packaged.metadata r).symm.trans (hunites.metadata r))
    have hpackaged : packagedFiles L w₁ = v.files.fileCount (L ++ packagedNames) := by
      rw [hunites.fileCount hms.nodup (hstocked.metadataRoot.directory (by decide)), packagedFiles,
        hmetadata, ← hl.closed.registered, hregistered.length_eq, List.length_map]
    have houtput : v.files.locate p.layout.outputClasses = .ok (L ++ packagedNames) := by
      rw [outputClasses_eq]
      exact locate_down hstocked.stands (by decide) (by decide) hfit.packaged hunites.paved.way
    have hnames : v.registered.Perm ((p.served w.files scripts).map p.layout.cache.classesDir) := by
      refine hregistered.trans (.trans (.of_eq ?_) (hserved.map p.layout.cache.classesDir).symm)
      rw [List.map_map]
      rfl
    refine ⟨_, hl.report, houtput, hstocked.locate_metadata hfit,
      hserved.nodup_iff.mpr hms.nodup, hnames,
      hplaces, hfiles, hunites.paved.directory (by decide), fun n hn => ?_, hunites.metadata,
      fun s l hs' hclass => ?_, hpackaged, hpackaged.trans hcount.symm⟩
    · exact hunites.class_of_mem hstocked hpacks hms.entries (hserved.mem_iff.mp hn)
    · refine hunites.nothing s l hs' fun m hm => hclass m.name ?_
      exact hserved.mem_iff.mpr (List.mem_map_of_mem hm)

/-- The theorem for the first batch of a build, in which the body of the second script fails. -/
theorem compileScripts_packages_two :
    let w := (Job.run BuildLayout.small.cache.create.run BuildLayout.bareWorld).2
    ∃ report v, smallPrecompiler.Schedules 0 smallScripts w (.ok report) v ∧
      report.packagedFiles = v.files.fileCount (["b"] ++ packagedNames) := by
  obtain ⟨t, hrun, -⟩ := BuildLayout.empty_bareWorld.run_create BuildLayout.fitting_small
    {s | s ∈ smallScripts}
  have hroot : { BuildLayout.bareWorld with files := t }.scopes.isLive 0 = true := rfl
  have hreached : BuildLayout.small.Reached ["b"] {s | s ∈ smallScripts}
      { BuildLayout.bareWorld with files := t } := by
    have hstart : BuildLayout.small.Reached ["b"] {s | s ∈ smallScripts}
        (Job.run BuildLayout.small.cache.create.run BuildLayout.bareWorld).2 :=
      .start BuildLayout.empty_bareWorld
    rwa [hrun] at hstart
  have hschedule := smallPrecompiler.schedules_compileScripts 0 smallScripts
    { BuildLayout.bareWorld with files := t }
  obtain ⟨-, hunion⟩ :=
    compileScripts_packages_union (p := smallPrecompiler) BuildLayout.fitting_small
    takes_smallScripts hreached (fun _ h => h) hschedule
  obtain ⟨report, hreport, -, -, -, -, -, -, -, -, -, -, hcount, -⟩ := hunion hroot
  rw [hreport] at hschedule
  rw [hrun]
  exact ⟨report, _, hschedule, hcount⟩

end Precompiler

end ScriptPlugins
