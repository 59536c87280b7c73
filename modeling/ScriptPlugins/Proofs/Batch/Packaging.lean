import ScriptPlugins.Proofs.Batch.Scripts
import ScriptPlugins.Proofs.Build.Stocked
import ScriptPlugins.Proofs.Files.Copying

/-!
# Packaging — what is packaged of a batch

The packaged directory holds the class files of all registered directories, and beside them the
metadata of the whole cache.
-/

namespace ScriptPlugins

open FileTree BuildLayout

/-- A name of which a build can package what its cache holds. -/
structure BuildLayout.Packs (b : BuildLayout) (n : String) : Prop where
  cache : b.cache.Takes n
  packagedClass : Fits (b.outputClasses.join (classFileName n))
  packagedDirectory : Fits ((b.outputClasses.join packagedMetadata).join n)
  packagedFile : Fits (((b.outputClasses.join packagedMetadata).join n).join metadataFileName)

theorem BuildLayout.Takes.packs {b : BuildLayout} {s : Script} (h : b.Takes s) (phase : Phase) :
    b.Packs (s.classNameOf phase) :=
  ⟨h.fits.names phase, h.packagedClass phase, h.packagedDirectory phase, h.packagedFile phase⟩

/-- Whatever is made of scripts that a build takes can be packaged. -/
theorem MadeFrom.packs {b : BuildLayout} {used : Set Script} {made : String → Option Made}
    (h : MadeFrom used made) (htakes : ∀ s ∈ used, b.Takes s) (n : String) (m : Made)
    (hm : made n = some m) : b.Packs n := by
  obtain ⟨rfl, -, hused⟩ := h n m hm
  exact (htakes _ hused).packs m.phase

/-! ## 1. What is in a box -/

theorem Box.entry?_append {f s : String} {b : Box} {r : Location}
    (h : b.entry? f (r ++ [s]) ≠ none) : r = [] ∧ b.entry? f r = some .directory := by
  obtain _ | ⟨n, _ | ⟨n', r⟩⟩ := r
  · cases b with
    | none => exact absurd (Box.entry?_missing f _) h
    | some o => exact ⟨rfl, rfl⟩
  · exact absurd rfl h
  · exact absurd rfl h

theorem Box.eq_of_entry? {f : String} {b : Box} {r : Location} (h : b.entry? f r ≠ none) :
    r = [] ∨ r = [f] := by
  obtain _ | ⟨n, _ | ⟨n', r⟩⟩ := r
  · exact .inl rfl
  · by_cases hn : n = f
    · exact .inr (by rw [hn])
    · exact absurd (if_neg hn) h
  · exact absurd rfl h

variable {q : Path} {f : String}

theorem packing_box (hf : IsName f) (hq : Fits q) (hqf : Fits (q.join f)) (bytes : ByteArray) :
    Packing q (Box.entry? f (some (some bytes))) where
  root := rfl
  closed r s h := (Box.entry?_append h).2
  isName r h s hs := by
    rcases Box.eq_of_entry? h with rfl | rfl
    · cases hs
    · exact List.mem_singleton.mp hs ▸ hf
  fits r h := by
    rcases Box.eq_of_entry? h with rfl | rfl
    · exact hq
    · exact hqf

/-- What stands at the names from a directory of boxes on. -/
def Box.among (f : String) (boxes : String → Box) : Location → Option Entry
  | [] => some .directory
  | n :: r => Box.entry? f (boxes n) r

theorem packing_boxes {boxes : String → Box} (hf : IsName f) (hq : Fits q)
    (hboxes : ∀ n, boxes n ≠ none → IsName n ∧ Fits (q.join n) ∧ Fits ((q.join n).join f)) :
    Packing q (Box.among f boxes) := by
  have hthere {n : String} {r : Location} (h : Box.among f boxes (n :: r) ≠ none) :
      boxes n ≠ none := by
    intro hn
    rw [Box.among, hn, Box.entry?_missing] at h
    exact h rfl
  refine ⟨rfl, fun r s h => ?_, fun r h s hs => ?_, fun r h => ?_⟩
  · cases r with
    | nil => rfl
    | cons n r =>
      obtain ⟨rfl, hd⟩ := Box.entry?_append (b := boxes n) h
      exact hd
  · cases r with
    | nil => cases hs
    | cons n r =>
      rcases List.mem_cons.mp hs with rfl | hs
      · exact (hboxes s (hthere h)).1
      · rcases Box.eq_of_entry? (b := boxes n) h with rfl | rfl
        · cases hs
        · exact List.mem_singleton.mp hs ▸ hf
  · cases r with
    | nil => exact hq
    | cons n r =>
      obtain ⟨-, h₁, h₂⟩ := hboxes n (hthere h)
      rcases Box.eq_of_entry? (b := boxes n) h with rfl | rfl
      · exact h₁
      · exact h₂

/-- A box with its file holds that file. -/
theorem FileTree.Stores.filesBelow {t : FileTree} {l : Location} {bytes : ByteArray}
    (h : t.Stores l f (some (some bytes))) :
    t.filesBelow l = [([f], bytes)] := by
  rw [← List.perm_singleton,
    List.perm_ext_iff_of_nodup (.of_map Prod.fst (nodup_filesBelow t l)) (List.nodup_singleton _)]
  rintro ⟨r, bytes'⟩
  rw [mem_filesBelow, h r, List.mem_singleton, Prod.mk.injEq]
  constructor
  · rintro ⟨hr, he⟩
    rcases Box.eq_of_entry? (b := some (some bytes)) (f := f) (by rw [he]; simp) with rfl | rfl
    · exact absurd rfl hr
    · rw [Box.entry?, if_pos rfl] at he
      cases he
      exact ⟨rfl, rfl⟩
  · rintro ⟨rfl, rfl⟩
    exact ⟨by simp, if_pos rfl⟩

theorem FileTree.Stores.fileCount {t : FileTree} {l : Location} {bytes : ByteArray}
    (h : t.Stores l f (some (some bytes))) : t.fileCount l = 1 := by
  rw [fileCount_eq, h.filesBelow]
  rfl

/-! ## 2. Classes -/

/-- A directory in which the files of some classes stand, and nothing else. -/
structure PackedClasses (x : String → Option CompiledClass) (N : Set String) (D : Location)
    (t : FileTree) : Prop where
  directory : t.entry? D = some .directory
  classes : ∀ n ∈ N, t.entry? (D ++ [classFileName n]) = (x n).map fun c => .file c.print.toUTF8
  nothing : ∀ s r, (∀ n ∈ N, s :: r ≠ [classFileName n]) → t.entry? (D ++ s :: r) = none

variable {b : BuildLayout} {L D : Location} {made : String → Option Made} {t : FileTree} {w : World}
  {x : String → Option CompiledClass} {N : Set String} {n : String} {m : Made}

theorem classFileName_inj {n n' : String} (h : classFileName n = classFileName n') : n = n' :=
  (String.append_left_inj _).mp h

theorem packedClasses_of_empty (h : t.EmptyAt D) : PackedClasses x ∅ D t :=
  ⟨h.directory, fun _ hn => hn.elim, fun s r _ => h.empty s r⟩

theorem paved_of_sameOutside {t' : FileTree} {l : Location} {ss : List String} (h : Paved l ss t)
    (hs : SameOutside (subtree (l ++ ss)) t t') (hd : t'.entry? (l ++ ss) = some .directory) :
    Paved l ss t' := by
  intro m hm
  by_cases he : m = l ++ ss
  · rw [he, hd]
  · rw [hs.entries m fun hin => he (hm.2.eq_of_length_le hin.length_le), h m hm]

/-- The class of an entry is kept in a directory of its own. -/
theorem BuildLayout.Stocked.locate_classes (h : b.Stocked L made t) (hpacks : b.Packs n) :
    t.locate (b.cache.classesDir n) = .ok (L ++ classesNames ++ [n]) := by
  have hn : ∀ s ∈ classesNames ++ [n], IsName s := by
    intro s hs
    rcases List.mem_append.mp hs with hs | hs
    · exact (by decide : ∀ s ∈ classesNames, IsName s) s hs
    · exact List.mem_singleton.mp hs ▸ hpacks.cache.isName
  have hdir : b.cache.classesDir n = b.root.down (classesNames ++ [n]) :=
    (Path.down_concat b.root classesNames n).symm
  have hfits : Fits (b.root.down (classesNames ++ [n])) := hdir ▸ hpacks.cache.classesDir
  rw [List.append_assoc, hdir]
  exact locate_down h.stands hn (by simp) hfits
    (h.classesRoot.way.concat (.inr (h.classesRoot.directory (by decide))) n)

/-- There is room for one more class, for the file of its name is missing or holds it. -/
theorem PackedClasses.site (hp : PackedClasses x N (L ++ packagedNames) t) (hfit : b.Fitting)
    (h : b.Stocked L made t) (hpaved : Paved L packagedNames t) (hx : x n = some m.compiled)
    (hpacks : b.Packs n) :
    Site (inside L) t b.root L packagedNames
      (Box.entry? (classFileName n) (some (some m.compiled.print.toUTF8))) := by
  have hpacking :=
    packing_box hpacks.cache.file hfit.packaged hpacks.packagedClass m.compiled.print.toUTF8
  have hslash := hfit.inPackaged
  rw [outputClasses_eq] at hpacking hslash
  refine ⟨h.stands, by decide, by decide, hpaved.way, hpacking, hslash, fun r hr => ?_⟩
  rcases Box.eq_of_entry? hr with rfl | rfl
  · rw [List.append_nil, hp.directory]
    exact .inr rfl
  · by_cases hn : n ∈ N
    · rw [hp.classes n hn, hx]
      exact .inr (if_pos rfl).symm
    · refine .inl (hp.nothing _ _ fun n' hn' he => hn ?_)
      rwa [classFileName_inj (List.cons.inj he).1]

/-- One more class stands among those that were packaged before. -/
theorem PackedClasses.copied {t' : FileTree} (hp : PackedClasses x N D t)
    (hx : x n = some m.compiled)
    (h : Copied (Box.entry? (classFileName n) (some (some m.compiled.print.toUTF8))) D t t') :
    PackedClasses x (insert n N) D t' := by
  have hentry (s : String) (r : Location) (hs : s :: r ≠ [classFileName n]) :
      t'.entry? (D ++ s :: r) = t.entry? (D ++ s :: r) := by
    have hnone : Box.entry? (classFileName n) (some (some m.compiled.print.toUTF8)) (s :: r) =
        none := by
      by_contra hne
      rcases Box.eq_of_entry? hne with he | he
      · cases he
      · exact hs he
    rw [h.entries, hnone, Option.none_or]
  refine ⟨?_, fun n' hn' => ?_, fun s r hsr => ?_⟩
  · have hroot := h.entries []
    rwa [List.append_nil] at hroot
  · by_cases he : n' = n
    · rw [he, h.entries, hx, Box.entry?, if_pos rfl]
      rfl
    · rw [hentry _ _ fun hc => he (classFileName_inj (List.cons.inj hc).1),
        hp.classes n' (Set.mem_of_mem_insert_of_ne hn' he)]
  · rw [hentry s r (hsr n (Set.mem_insert n N)),
      hp.nothing s r fun n' hn' => hsr n' (Set.mem_insert_of_mem n hn')]

/-- One class is packaged. -/
theorem run_copyClass (hfit : b.Fitting) (h : b.Stocked L made w.files)
    (hpaved : Paved L packagedNames w.files) (hp : PackedClasses x N (L ++ packagedNames) w.files)
    (hm : made n = some m) (hx : x n = some m.compiled) (hpacks : b.Packs n) :
    ∃ t', Job.run (copyTree (b.cache.classesDir n) b.outputClasses).run w =
        (.ok 1, { w with files := t' }) ∧
      SameOutside (subtree (L ++ packagedNames)) w.files t' ∧
      PackedClasses x (insert n N) (L ++ packagedNames) t' := by
  have hstores : w.files.Stores (L ++ classesNames ++ [n]) (classFileName n)
      (some (some m.compiled.print.toUTF8)) := by
    have hbox := h.classes n
    rwa [hm] at hbox
  have hsource : (fun r => w.files.entry? (L ++ classesNames ++ [n] ++ r)) =
      Box.entry? (classFileName n) (some (some m.compiled.print.toUTF8)) := funext hstores
  have hsite := hp.site hfit h hpaved hx hpacks
  obtain ⟨t', hrun, hcopied⟩ := run_copyTree (h.locate_classes hpacks) (hsource ▸ hsite)
  rw [hstores.fileCount, ← outputClasses_eq] at hrun
  rw [hsource] at hcopied
  exact ⟨t', hrun, hcopied.others, hp.copied hx hcopied⟩

/-- Classes are packaged in turn. -/
theorem run_copyClasses (hfit : b.Fitting) (h : b.Stocked L made w.files)
    (hpaved : Paved L packagedNames w.files) (hp : PackedClasses x N (L ++ packagedNames) w.files)
    (hpacks : ∀ n m, made n = some m → b.Packs n) {dirs : List Path}
    (hdirs : ∀ dir ∈ dirs, ∃ n m, made n = some m ∧ x n = some m.compiled ∧
      dir = b.cache.classesDir n) :
    ∃ t' N', Job.run (dirs.mapM fun dir => copyTree dir b.outputClasses).run w =
        (.ok (dirs.map fun _ => 1), { w with files := t' }) ∧
      SameOutside (subtree (L ++ packagedNames)) w.files t' ∧ Paved L packagedNames t' ∧
      PackedClasses x N' (L ++ packagedNames) t' ∧ N ⊆ N' ∧ (∀ n ∈ N', n ∈ N ∨ x n ≠ none) ∧
      ∀ dir ∈ dirs, ∃ n ∈ N', x n ≠ none ∧ dir = b.cache.classesDir n := by
  induction dirs generalizing w N with
  | nil =>
    exact ⟨w.files, N, rfl, .refl _ _, hpaved, hp, subset_rfl, fun _ => .inl,
      fun _ hd => nomatch hd⟩
  | cons dir dirs ih =>
    obtain ⟨n, m, hm, hx, rfl⟩ := hdirs dir List.mem_cons_self
    obtain ⟨t₁, hrun₁, hs₁, hp₁⟩ := run_copyClass hfit h hpaved hp hm hx (hpacks n m hm)
    obtain ⟨t₂, N', hrun₂, hs₂, hpaved₂, hp₂, hsub, honly, hall⟩ :=
      ih (w := { w with files := t₁ }) (h.elsewhere (hs₁.mono (packaged_subset L)))
        (paved_of_sameOutside hpaved hs₁ hp₁.directory) hp₁
        fun dir hd => hdirs dir (List.mem_cons_of_mem _ hd)
    refine ⟨t₂, N', ?_, hs₁.trans hs₂, hpaved₂, hp₂, (Set.subset_insert n N).trans hsub,
      fun n' hn' => ?_, fun dir hd => ?_⟩
    · rw [List.mapM_cons, Attempt.run_bind_ok hrun₁, Attempt.run_bind_ok hrun₂]
      rfl
    · rcases honly n' hn' with (rfl | hn') | hn'
      · exact .inr (by simp [hx])
      · exact .inl hn'
      · exact .inr hn'
    · rcases List.mem_cons.mp hd with rfl | hd
      · exact ⟨n, hsub (Set.mem_insert n N), by simp [hx], rfl⟩
      · exact hall dir hd

/-! ## 3. Classes and metadata -/

/-- What has been packaged: the classes that are exported, and the metadata of the whole cache. -/
structure Packaged (x : String → Option CompiledClass) (L : Location) (t t' : FileTree) : Prop where
  others : SameOutside (subtree (L ++ packagedNames)) t t'
  paved : Paved L packagedNames t'
  classes : ∀ n, t'.entry? (L ++ packagedNames ++ [classFileName n]) =
    (x n).map fun c => .file c.print.toUTF8
  metadata : ∀ r, t'.entry? (L ++ packagedNames ++ packagedMetadata :: r) =
    t.entry? (L ++ metadataNames ++ r)
  nothing : ∀ s r, s ≠ packagedMetadata → (∀ n, s :: r ≠ [classFileName n]) →
    t'.entry? (L ++ packagedNames ++ s :: r) = none

/-- No class file has the name of the directory for metadata. -/
theorem classFileName_ne (n : String) : classFileName n ≠ packagedMetadata := by
  intro h
  have hlast := congrArg (fun s : String => s.toList.getLast?) h
  simp only [classFileName, String.toList_append] at hlast
  revert hlast
  simp [packagedMetadata]

theorem join_inj {p : Path} {n n' : String} (hn : IsName n) (hn' : IsName n')
    (h : p.join n = p.join n') : n = n' := by
  have hsteps := congrArg Path.steps h
  rw [Path.steps_join hn, Path.steps_join hn'] at hsteps
  exact Component.name.inj (List.cons.inj (List.append_cancel_left hsteps)).1

/-- The metadata of the whole cache is packaged. -/
theorem run_copyMetadata (hfit : b.Fitting) (h : b.Stocked L made w.files)
    (hpaved : Paved L packagedNames w.files)
    (hnone : ∀ r, w.files.entry? (L ++ packagedNames ++ packagedMetadata :: r) = none)
    (hpacks : ∀ n m, made n = some m → b.Packs n) :
    ∃ t', Job.run (copyTree b.cache.metadataRoot (b.outputClasses.join packagedMetadata)).run w =
        (.ok (w.files.fileCount (L ++ metadataNames)), { w with files := t' }) ∧
      Copied (fun r => w.files.entry? (L ++ metadataNames ++ r))
        (L ++ (packagedNames ++ [packagedMetadata])) w.files t' := by
  have hsource : (fun r => w.files.entry? (L ++ metadataNames ++ r)) =
      Box.among metadataFileName fun n => (Boxes.ofMade (made n)).metadata := by
    funext r
    cases r with
    | nil => rw [List.append_nil]; exact h.metadataRoot.directory (by decide)
    | cons n r =>
      have hbox := h.metadata n r
      rwa [List.append_assoc] at hbox
  have hdest : b.outputClasses.join packagedMetadata =
      b.root.down (packagedNames ++ [packagedMetadata]) :=
    (Path.down_concat b.root packagedNames packagedMetadata).symm
  have hfits : Fits (b.outputClasses.join packagedMetadata) :=
    hfit.inMetadata.of_join (by simp) (Path.text_join_ne (by decide) _)
  have hboxes (n : String) (hn : (Boxes.ofMade (made n)).metadata ≠ none) :
      IsName n ∧ Fits ((b.outputClasses.join packagedMetadata).join n) ∧
        Fits (((b.outputClasses.join packagedMetadata).join n).join metadataFileName) := by
    cases hm : made n with
    | none => rw [hm] at hn; exact absurd rfl hn
    | some m => exact ⟨(hpacks n m hm).cache.isName, (hpacks n m hm).packagedDirectory,
        (hpacks n m hm).packagedFile⟩
  -- A copy needs no more of its source than that it is a directory of boxes, each with a name that
  -- fits.
  have hpacking := packing_boxes Cache.isName_metadata hfits hboxes
  have hslash := hfit.inMetadata
  rw [hdest] at hpacking hslash
  have hsite : Site (inside L) w.files b.root L (packagedNames ++ [packagedMetadata])
      fun r => w.files.entry? (L ++ metadataNames ++ r) := by
    refine ⟨h.stands, by decide, by decide,
      hpaved.way.concat (.inr (hpaved.directory (by decide))) _,
      hsource ▸ hpacking, hslash, fun r _ => .inl ?_⟩
    rw [← List.append_assoc, List.append_assoc _ [packagedMetadata]]
    exact hnone r
  rw [hdest]
  exact run_copyTree (h.locate_metadata hfit) hsite

/-- The class files of all registered directories are packaged, if these are the directories of the
classes that are exported. -/
theorem run_copyExported (hfit : b.Fitting) (h : b.Stocked L made w.files)
    (hpaved : Paved L packagedNames w.files) (hempty : w.files.EmptyAt (L ++ packagedNames))
    (hpacks : ∀ n m, made n = some m → b.Packs n)
    (hx : ∀ n, x n ≠ none → ∃ m, made n = some m ∧ x n = some m.compiled) {dirs : List Path}
    (hdirs : ∀ dir, dir ∈ dirs ↔ ∃ n, x n ≠ none ∧ dir = b.cache.classesDir n) :
    ∃ t', Job.run (dirs.mapM fun dir => copyTree dir b.outputClasses).run w =
        (.ok (dirs.map fun _ => 1), { w with files := t' }) ∧
      SameOutside (subtree (L ++ packagedNames)) w.files t' ∧ Paved L packagedNames t' ∧
      PackedClasses x {n | x n ≠ none} (L ++ packagedNames) t' := by
  obtain ⟨t', N, hrun, hsame, hpaved', hp, -, honly, hall⟩ :=
    run_copyClasses hfit h hpaved (packedClasses_of_empty hempty) hpacks fun dir hd => by
      obtain ⟨n, hn, rfl⟩ := (hdirs dir).mp hd
      obtain ⟨m, hm, hxm⟩ := hx n hn
      exact ⟨n, m, hm, hxm, rfl⟩
  -- A directory is that of one class only, so no other class can stand for it.
  have hN : N = {n | x n ≠ none} := by
    ext n
    refine ⟨fun hn => (honly n hn).resolve_left fun h => h, fun hn => ?_⟩
    obtain ⟨n', hn', hx', he⟩ := hall _ ((hdirs _).mpr ⟨n, hn, rfl⟩)
    obtain ⟨m, hm, -⟩ := hx n hn
    obtain ⟨m', hm', -⟩ := hx n' hx'
    rw [join_inj (hpacks n m hm).cache.isName (hpacks n' m' hm').cache.isName he]
    exact hn'
  exact ⟨t', hrun, hsame, hpaved', hN ▸ hp⟩

/-- Metadata beside the classes that are exported is all that is packaged. -/
theorem Packaged.of_copied {t₁ t₂ : FileTree}
    (hs₁ : SameOutside (subtree (L ++ packagedNames)) t t₁) (hpaved : Paved L packagedNames t₁)
    (hp : PackedClasses x {n | x n ≠ none} (L ++ packagedNames) t₁)
    (hcopied : Copied (fun r => t₁.entry? (L ++ metadataNames ++ r))
      (L ++ (packagedNames ++ [packagedMetadata])) t₁ t₂) :
    Packaged x L t t₂ := by
  have hsub : subtree (L ++ (packagedNames ++ [packagedMetadata])) ⊆
      subtree (L ++ packagedNames) := by
    rintro m ⟨r, rfl⟩
    exact ⟨[packagedMetadata] ++ r, by simp⟩
  have hs₂ := hcopied.others.mono hsub
  have hkept (s : String) (r : Location) (hs : s ≠ packagedMetadata) :
      t₂.entry? (L ++ packagedNames ++ s :: r) = t₁.entry? (L ++ packagedNames ++ s :: r) := by
    refine hcopied.others.entries _ fun hp => hs ?_
    have hp' : [packagedMetadata] <+: s :: r :=
      (List.prefix_append_right_inj (L ++ packagedNames)).mp (by rw [List.append_assoc]; exact hp)
    exact (List.cons_prefix_cons.mp hp').1.symm
  refine ⟨hs₁.trans hs₂, paved_of_sameOutside hpaved hs₂ ?_, fun n => ?_, fun r => ?_,
    fun s r hs hsr => ?_⟩
  · have hroot := hcopied.others.entries (L ++ packagedNames) fun hp => by
      have hlen := List.IsPrefix.length_le hp
      simp only [List.length_append, List.length_singleton] at hlen
      omega
    rw [hroot]
    exact hpaved.directory (by decide)
  · rw [hkept _ _ (classFileName_ne n)]
    by_cases hn : x n = none
    · rw [hn]
      exact hp.nothing _ _ fun n' hn' he =>
        hn' (by rw [← classFileName_inj (List.cons.inj he).1, hn])
    · exact hp.classes n hn
  · have hentry := hcopied.entries r
    have hnone : t₁.entry? (L ++ (packagedNames ++ [packagedMetadata]) ++ r) = none := by
      rw [← List.append_assoc, List.append_assoc _ [packagedMetadata]]
      exact hp.nothing _ r fun n _ he => classFileName_ne n (List.cons.inj he).1.symm
    rw [hnone, Option.or_none, ← List.append_assoc,
      List.append_assoc _ [packagedMetadata]] at hentry
    -- The metadata of the cache lies apart from what is packaged, so packaging classes left it
    -- alone.
    exact hentry.trans (hs₁.entries _
      (not_prefix_append (not_prefix_at (by decide) L) (not_prefix_at (by decide) L) r))
  · rw [hkept s r hs]
    exact hp.nothing s r fun n _ => hsr n

theorem foldr_map_one {α : Type} (as : List α) (k : Nat) :
    (as.map fun _ => 1).foldr (· + ·) k = as.length + k := by
  induction as with
  | nil => exact (Nat.zero_add k).symm
  | cons a as ih =>
    rw [List.map_cons, List.foldr_cons, ih, List.length_cons]
    omega

/-- **A batch is packaged**: all classes that are exported, and the metadata of the whole cache. -/
theorem run_package (hfit : b.Fitting) (h : b.Stocked L made w.files)
    (hpaved : Paved L packagedNames w.files) (hempty : w.files.EmptyAt (L ++ packagedNames))
    (hpacks : ∀ n m, made n = some m → b.Packs n)
    (hx : ∀ n, x n ≠ none → ∃ m, made n = some m ∧ x n = some m.compiled) {dirs : List Path}
    (hdirs : ∀ dir, dir ∈ dirs ↔ ∃ n, x n ≠ none ∧ dir = b.cache.classesDir n) :
    ∃ t', Job.run (package dirs b.cache.metadataRoot b.outputClasses).run w =
        (.ok (dirs.length + w.files.fileCount (L ++ metadataNames)),
          { w with
            files := t'
            log := w.log ++ [.packaged b.outputClasses.text
              (dirs.length + w.files.fileCount (L ++ metadataNames))] }) ∧
      Packaged x L w.files t' := by
  obtain ⟨t₁, hrun₁, hs₁, hpaved₁, hp₁⟩ := run_copyExported hfit h hpaved hempty hpacks hx hdirs
  have hstocked : b.Stocked L made t₁ := h.elsewhere (hs₁.mono (packaged_subset L))
  obtain ⟨t₂, hrun₂, hcopied⟩ :=
    run_copyMetadata (w := { w with files := t₁ }) hfit hstocked hpaved₁
    (fun r => hp₁.nothing _ r fun n _ he => classFileName_ne n (List.cons.inj he).1.symm) hpacks
  have hcount : t₁.fileCount (L ++ metadataNames) = w.files.fileCount (L ++ metadataNames) :=
    fileCount_congr fun r => congrArg _ (hs₁.entries _
      (not_prefix_append (not_prefix_at (by decide) L) (not_prefix_at (by decide) L) r))
  have hdirectory : t₁.isDirectory b.cache.metadataRoot = true :=
    isDirectory_of_locate (hstocked.locate_metadata hfit)
      (hstocked.metadataRoot.directory (by decide))
  refine ⟨t₂, ?_, .of_copied hs₁ hpaved₁ hp₁ hcopied⟩
  rw [package, Attempt.run_bind_ok hrun₁, Attempt.run_bind_ok (Attempt.run_files _),
    hdirectory, if_pos rfl, Attempt.run_bind_ok hrun₂, ← hcount]
  simp only [foldr_map_one]
  rfl

end ScriptPlugins
