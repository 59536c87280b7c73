import ScriptPlugins.Proofs.Batch.Places
import ScriptPlugins.Proofs.Build.Layout

/-!
# Scripts of a batch — what becomes of one script, whatever the others do

A script of a batch leaves its entries, its exports and its adapter.  All of this, and its result,
follows from what stood there before and from the times at which it compiles.
-/

namespace ScriptPlugins

open FileTree Owning BuildLayout

/-- A script whose names and lines the directories of a build can take. -/
structure BuildLayout.Takes (b : BuildLayout) (s : Script) : Prop where
  fits : s.FitsIn b.cache
  packagedClass : ∀ phase, Fits (b.outputClasses.join (classFileName (s.classNameOf phase)))
  packagedDirectory :
    ∀ phase, Fits ((b.outputClasses.join packagedMetadata).join (s.classNameOf phase))
  packagedFile : ∀ phase,
    Fits (((b.outputClasses.join packagedMetadata).join (s.classNameOf phase)).join
      metadataFileName)
  adapterName : IsName s.adapterFile
  adapter : Fits (b.adapters.join s.adapterFile)

/-- A build whose root leaves room takes every script whose id is not too long. -/
theorem BuildLayout.Takes.of_short {b : BuildLayout} {s : Script} (h : Room b.root 1024)
    (hid : s.id.toList.length ≤ 200) (hlines : 1 + Language.lineFeeds s.source.toList ≤ lineLimit) :
    b.Takes s := by
  have hcache : Room (b.root.join "compiled-scripts") 1000 :=
    h.join (by decide +kernel) (by decide +kernel)
  have houtput : Room b.output 990 :=
    (h.join (m := 1006) (by decide +kernel) (by decide +kernel)).join (by decide +kernel)
      (by decide +kernel)
  have hclasses : Room b.outputClasses 980 := houtput.join (by decide +kernel) (by decide +kernel)
  have hmetadata : Room (b.outputClasses.join packagedMetadata) 970 :=
    hclasses.join (by decide +kernel) (by decide +kernel)
  have hlimit : nameLimit = 255 := rfl
  -- Class files and adapters are named after plain names.
  have hfile (phase : Phase) : PlainText (classFileName (s.classNameOf phase)) ∧
      (classFileName (s.classNameOf phase)).toList.length ≤ 230 := by
    obtain ⟨hplain, -, hlong⟩ := s.plain_classNameOf phase
    refine ⟨hplain.append (by decide +kernel), ?_⟩
    have hend : ".class.json".toList.length = 11 := rfl
    rw [classFileName, String.toList_append, List.length_append]
    omega
  obtain ⟨hplain, hlong⟩ := s.plain_adapterName
  have hadapter : PlainText s.adapterFile := hplain.append (by decide +kernel)
  have hlength : s.adapterFile.toList.length = s.adapterName.toList.length + 5 := by
    rw [Script.adapterFile, String.toList_append, List.length_append]
    rfl
  have hcachedClasses : Room b.cachedClasses 512 :=
    hcache.join (by decide +kernel) (by decide +kernel)
  have hcachedMetadata : Room b.cachedMetadata 512 :=
    hcache.join (by decide +kernel) (by decide +kernel)
  refine ⟨.of_short hcachedClasses hcachedMetadata hid hlines, fun phase => ?_, fun phase => ?_,
    fun phase => ?_, hadapter.isName ?_ (by omega), ?_⟩
  · exact (hclasses.join (m := 0) (hfile phase).1 (by have := (hfile phase).2; omega)).fits
  · obtain ⟨hplain, -, hlong⟩ := s.plain_classNameOf phase
    exact (hmetadata.join (m := 0) hplain (by omega)).fits
  · obtain ⟨hplain, -, hlong⟩ := s.plain_classNameOf phase
    exact ((hmetadata.join (m := 300) hplain (by omega)).join (m := 0) (by decide +kernel)
      (by decide +kernel)).fits
  · have hplugin : s.adapterName.toList.length ≥ 6 := by
      rw [Script.adapterName, String.toList_append, List.length_append]
      exact Nat.le_add_left 6 _
    omega
  · exact ((houtput.join (m := 900) (by decide +kernel) (by decide +kernel)).join (m := 0) hadapter
      (by omega)).fits

/-! ## 1. Who owns what in a batch -/

/-- The owner of an entry.  What has the name of the owner of an adapter belongs to nobody. -/
def entryOwner (n : String) : Option String := if n.toList.head? = some '/' then none else some n

/-- What lies below the roots of the cache belongs to the names of its entries, and a file of the
directory for adapters to its own. -/
def batchOwning (L : Location) (scope : Nat) : Owning where
  owner := ownerBelow [(L ++ classesNames, entryOwner), (L ++ metadataNames, entryOwner),
    (L ++ adaptersNames, fun file => some (adapterOwner file))]
  scope := scope
  classNames := {n | entryOwner n = some n}

variable {b : BuildLayout} {L : Location} {scope : Nat} {t t' : FileTree} {w w' : World}

theorem owner_adapters (L : Location) (scope : Nat) (file : String) (r : Location) :
    (batchOwning L scope).owner (L ++ adaptersNames ++ file :: r) = some (adapterOwner file) := by
  have hclasses : ¬L ++ classesNames <+: L ++ adaptersNames ++ file :: r :=
    not_prefix_append (not_prefix_at (by decide) L) (not_prefix_at (by decide) L) _
  have hmetadata : ¬L ++ metadataNames <+: L ++ adaptersNames ++ file :: r :=
    not_prefix_append (not_prefix_at (by decide) L) (not_prefix_at (by decide) L) _
  exact (ownerBelow_tail hclasses).trans
    ((ownerBelow_tail hmetadata).trans (ownerBelow_head file r))

theorem owner_classes (L : Location) (scope : Nat) (n : String) (r : Location) :
    (batchOwning L scope).owner (L ++ classesNames ++ n :: r) = entryOwner n := ownerBelow_head n r

theorem owner_metadata (L : Location) (scope : Nat) (n : String) (r : Location) :
    (batchOwning L scope).owner (L ++ metadataNames ++ n :: r) = entryOwner n :=
  (ownerBelow_tail (not_prefix_append (not_prefix_at (by decide) L)
    (not_prefix_at (by decide) L) _)).trans (ownerBelow_head n r)

/-- The classes of a script own their entries. -/
theorem Script.entryOwner_class (s : Script) (phase : Phase) :
    entryOwner (s.classNameOf phase) = some (s.classNameOf phase) := by
  refine if_neg fun h => ?_
  cases phase <;>
    · simp only [classNameOf, preambleClassName, className, String.toList_append] at h
      revert h
      simp

/-- The owner of an adapter owns no entry. -/
theorem entryOwner_ne_adapterOwner (n file : String) : entryOwner n ≠ some (adapterOwner file) := by
  intro h
  rw [entryOwner] at h
  split at h
  · cases h
  next hn =>
    refine hn ?_
    rw [Option.some.inj h, adapterOwner, String.toList_append]
    rfl

theorem batchSeat (L : Location) (scope : Nat) (s : Script) :
    Cache.Seat (batchOwning L scope) (L ++ classesNames) (L ++ metadataNames) s.classNames where
  classes n hn r := by
    obtain ⟨phase, rfl⟩ := hn
    exact (owner_classes ..).trans (s.entryOwner_class phase)
  metadata n hn r := by
    obtain ⟨phase, rfl⟩ := hn
    exact (owner_metadata ..).trans (s.entryOwner_class phase)
  names := by
    rintro n ⟨phase, rfl⟩
    exact s.entryOwner_class phase
  apart := not_prefix_at (by decide) L
  apart' := not_prefix_at (by decide) L

/-- What may change while the scripts of a batch are compiled. -/
abbrev batchOwned (L : Location) (scope : Nat) : Set Location :=
  Cache.owned (batchOwning L scope) (L ++ classesNames) (L ++ metadataNames)

/-- Scripts change nothing but what lies below the roots of the cache and the directory for
adapters. -/
theorem reaches_owned : Reaches (batchOwned L scope) L := by
  intro l h
  rcases h with ⟨n, -, hn⟩ | h | h
  case inr.inl => exact .inl h
  case inr.inr => exact .inr (.inl h)
  obtain ⟨root, hroot, hin⟩ := inside_of_ownerBelow hn
  simp only [List.mem_cons, List.not_mem_nil, or_false] at hroot
  rcases hroot with rfl | rfl | rfl
  · exact .inl hin
  · exact .inr (.inl hin)
  · exact .inr (.inr hin)

/-- Nobody owns a directory on the way to the adapters. -/
theorem between_adapters_not_owned {m : Location} (hm : m ∈ between L adaptersNames) :
    m ∉ batchOwned L scope := by
  intro h
  have hlen := hm.2.length_le
  rcases reaches_owned m h with h | h | h
  · exact not_prefix_at (by decide) L (h.1.trans hm.2)
  · exact not_prefix_at (by decide) L (h.1.trans hm.2)
  · exact h.2 (h.1.eq_of_length_le hlen)

/-! ## 2. Adapters -/

/-- A file with some bytes, or nothing. -/
def FileTree.HoldsFile (t : FileTree) (l : Location) (bytes : Option ByteArray) : Prop :=
  ∀ r, t.entry? (l ++ r) = if r = [] then bytes.map .file else none

/-- The directory for adapters is there, and so is the file of one adapter, or it is missing. -/
structure AdapterSite (b : BuildLayout) (L : Location) (file : String) (bytes : Option ByteArray)
    (t : FileTree) : Prop where
  stands : Standing (inside L) t b.root L
  paved : Paved L adaptersNames t
  file : t.HoldsFile (L ++ adaptersNames ++ [file]) bytes

variable {file : String} {bytes : Option ByteArray}

theorem stable_adapterSite {K : Set String} (hfile : adapterOwner file ∈ K) :
    (batchOwning L scope).Stable K fun w => AdapterSite b L file bytes w.files := by
  intro w w' h hk
  have hsub : (batchOwning L scope).region Kᶜ ⊆ batchOwned L scope :=
    Cache.region_subset_owned _
  refine ⟨h.stands.stays (hk.files.mono (hsub.trans reaches_owned.subset)),
    fun m hm => ?_, fun r => ?_⟩
  · rw [hk.files.entries m fun h => between_adapters_not_owned hm (hsub h), h.paved m hm]
  · have howner := owner_adapters L scope file r
    rw [List.append_assoc, List.singleton_append]
    rw [hk.entry? howner hfile]
    have hold := h.file r
    rwa [List.append_assoc, List.singleton_append] at hold

/-- An adapter is written into its file. -/
theorem AdapterSite.replaceFile (h : AdapterSite b L file bytes t) (hname : IsName file)
    (hfit : Fits (b.adapters.join file)) (new : ByteArray) :
    ∃ t', t.replaceFile (b.adapters.join file) new = .ok t' ∧
      SameOutside (subtree (L ++ adaptersNames ++ [file])) t t' ∧
      AdapterSite b L file (some new) t' := by
  have hn : ∀ s ∈ adaptersNames ++ [file], IsName s := by
    simp only [List.mem_append, List.mem_singleton]
    rintro s (hs | rfl)
    · revert s; decide
    · exact hname
  have hway : Way t L (adaptersNames ++ [file]) :=
    h.paved.way.concat (.inr (h.paved.directory (by decide))) file
  have hfit' : Fits (b.root.down (adaptersNames ++ [file])) := hfit
  have hnot : t.entry? (L ++ (adaptersNames ++ [file])) ≠ some .directory := by
    have hfile := h.file []
    rw [List.append_nil, if_pos rfl, List.append_assoc] at hfile
    rw [hfile]
    cases bytes <;> simp
  have hwrite := replaceFile_down h.stands hn (by simp) hfit' hway hnot new
  have hsame : SameOutside (subtree (L ++ adaptersNames ++ [file])) t
      (t.put (L ++ (adaptersNames ++ [file])) (.file new)) :=
    .put (by simp [adaptersNames]) _ (by rw [List.append_assoc]; exact List.prefix_refl _)
  refine ⟨_, hwrite, hsame, h.stands.stays (hsame.mono fun l hl => ?_), fun m hm => ?_, fun r => ?_⟩
  · exact inside_append_subset _ _ (subtree_subset_inside _ _ hl)
  · rw [hsame.entries m fun hs => ?_, h.paved m hm]
    -- What is on the way is shorter than the place of the file.
    have hlen := (List.IsPrefix.trans hs hm.2).length_le
    rw [List.length_append, List.length_singleton] at hlen
    omega
  · have heq : L ++ adaptersNames ++ [file] ++ r = L ++ (adaptersNames ++ [file]) ↔ r = [] := by
      rw [← List.append_assoc, List.append_right_eq_self]
    rw [entry?_put t (by simp [adaptersNames])]
    simp only [heq]
    split
    · rfl
    next hr =>
      rw [h.file r, if_neg hr]

/-- The directory for adapters is not made again. -/
theorem AdapterSite.makeDirectories (h : AdapterSite b L file bytes t) (hfit : Fits b.adapters) :
    t.makeDirectories b.adapters = (.ok (), t) := by
  have hn : ∀ s ∈ adaptersNames, IsName s := by decide
  have hdirectory : t.entry? (L ++ adaptersNames) = some .directory := h.paved.directory (by decide)
  rw [adapters_eq] at hfit ⊢
  exact makeDirectories_there hfit.text_ne (place_down h.stands hn hfit h.paved.way)
    (locate_down h.stands hn (by decide) hfit h.paved.way) hdirectory

/-- **An adapter is generated**: its file is written, and nothing else happens. -/
theorem answers_generate (scope : Nat) {K : Set String} (a : Adapter) (hfit : b.Fitting)
    (hfile : adapterOwner a.fileName ∈ K) (hname : IsName a.fileName)
    (hpath : Fits (b.adapters.join a.fileName)) {e : Tally}
    (h : AdapterSite b L a.fileName bytes w.files) :
    (batchOwning L scope).Answers K (a.generate b.adapters) e w fun path e' w' =>
      path = b.adapters.join a.fileName ∧ e' = e ∧
        AdapterSite b L a.fileName (some a.print.toUTF8) w'.files := by
  have hstable (bytes : Option ByteArray) : (batchOwning L scope).Stable K
      fun w => AdapterSite b L a.fileName bytes w.files := stable_adapterSite hfile
  rw [Adapter.generate]
  refine (Answers.change (c := .makeDirectories b.adapters) (hstable _) h (hstable _) fun w h =>
    ⟨w.files, h.makeDirectories hfit.adapters, .refl _ _, h⟩).bind fun _ e₁ w ⟨he₁, h⟩ => ?_
  subst he₁
  refine (Answers.change (hstable _) h (hstable (some a.print.toUTF8)) fun w h => ?_).bind
    fun _ e₂ w ⟨he₂, h⟩ => ?_
  · obtain ⟨t', ht', hsame, h'⟩ := h.replaceFile hname hpath a.print.toUTF8
    have happly : w.files.apply (.replaceFile (b.adapters.join a.fileName) a.print.toUTF8) =
        (.ok (), t') := by
      rw [FileTree.apply, ht']
      rfl
    refine ⟨t', happly, hsame.mono ?_, h'⟩
    rintro _ ⟨r, rfl⟩
    rw [List.append_assoc]
    exact ⟨_, hfile, owner_adapters L scope a.fileName r⟩
  · exact (Answers.report (hstable _) h (fun _ _ h => h) _).bind fun _ e₃ w ⟨he₃, h⟩ =>
      Answers.pure fun w' hw => ⟨rfl, he₃.trans he₂, hstable _ _ _ h hw⟩

/-! ## 3. Whole scripts -/

/-- What stands in the file of an adapter in the end. -/
def adapterBytes : ScriptResult → Option ByteArray
  | .ok r => some r.adapter.print.toUTF8
  | .error _ => none

namespace Precompiler

variable (p : Precompiler) (s : Script) (scope : Nat)

/-- The result of a script of a batch, and what becomes of its stage. -/
def scriptOn (now : Phase → Instant) (g : Stage) : ScriptResult × Stage :=
  match p.layout.cache.scriptOn p.compiler s scope now g with
  | (.error e, g) => (.error e, g)
  | (.ok c, g) =>
    (.ok ⟨.ofScript s c.preamble c.body, p.layout.adapters.join s.adapterFile, c.recompiled⟩, g)

variable {p s scope} in
theorem scriptOn_error {now : Phase → Instant} {g g' : Stage} {err : BuildError}
    (h : p.layout.cache.scriptOn p.compiler s scope now g = (.error err, g')) :
    p.scriptOn s scope now g = (.error err, g') := by rw [scriptOn, h]

variable {p s scope} in
theorem scriptOn_ok {now : Phase → Instant} {g g' : Stage} {c : CompiledScript}
    (h : p.layout.cache.scriptOn p.compiler s scope now g = (.ok c, g')) :
    p.scriptOn s scope now g = (.ok ⟨.ofScript s c.preamble c.body,
      p.layout.adapters.join s.adapterFile, c.recompiled⟩, g') := by rw [scriptOn, h]

/-- What a script of a batch leaves when it has ended. -/
structure Leaves (L : Location) (now : Phase → Instant) (g : Stage) (r : ScriptResult) (e : Tally)
    (w : World) : Prop where
  times : ∀ phase, (now phase).valid = true
  result : r = (p.scriptOn s scope now g).1
  tally : e = (p.scriptOn s scope now g).2.tally
  entries : p.layout.cache.On (batchOwning L scope) (L ++ classesNames) (L ++ metadataNames)
    s.classNames (p.scriptOn s scope now g).2 w
  adapter : AdapterSite p.layout L s.adapterFile (adapterBytes r) w.files

variable {p s scope}

/-- **A script of a batch ends as its stage tells**, whatever the others do. -/
theorem ends_compileScript (hfit : p.layout.Fitting) (hs : p.layout.Takes s) {g : Stage}
    (h : p.layout.cache.On (batchOwning L scope) (L ++ classesNames) (L ++ metadataNames)
      s.classNames g w)
    (hx : ∀ phase, g.exports (s.classNameOf phase) = none)
    (hsite : AdapterSite p.layout L s.adapterFile none w.files) :
    (batchOwning L scope).Ends s.owns (fun r e w => ∃ now, p.Leaves s scope L now g r e w)
      (p.compileScript scope s).run g.tally w := by
  have hfile : adapterOwner s.adapterFile ∈ ({adapterOwner s.adapterFile} : Set String) := rfl
  -- Nothing that the cache does touches the file of the adapter, which is owned under another name.
  have hcompile :=
    (Cache.ends_compileScript p.compiler (batchSeat L scope s) s.classNameOf_mem hs.fits h
    hx).frame (stable_adapterSite hfile) (s.disjoint_adapterOwner _) hsite
  rw [compileScript]
  refine Ends.bind hcompile fun r e₁ w₁ hr => ?_
  rcases r with err | c
  · intro w' hw
    obtain ⟨⟨now, hnow, g', hg', he, h'⟩, hsite'⟩ := hr w' hw
    have hon : p.scriptOn s scope now g = (.error err, g') := scriptOn_error hg'
    refine ⟨now, hnow, ?_, ?_, ?_, hsite'⟩ <;> rw [hon]
    · exact he
    · exact h'
  · obtain ⟨⟨now, hnow, g', hg', he, h'⟩, hsite'⟩ := hr w₁ (.refl ..)
    have hon : p.scriptOn s scope now g = (.ok ⟨.ofScript s c.preamble c.body,
        p.layout.adapters.join s.adapterFile, c.recompiled⟩, g') := scriptOn_ok hg'
    -- Nor does generating the adapter touch the cache.
    have hgenerate :=
      Ends.frame (answers_generate (e := e₁) scope (.ofScript s c.preamble c.body) hfit hfile
      hs.adapterName hs.adapter hsite')
      (Cache.stable_records (batchSeat L scope s)) (s.disjoint_adapterOwner _).symm h'
    rw [Set.union_comm] at hgenerate
    refine Ends.bind hgenerate fun r e₂ w₂ hr => ?_
    obtain ⟨⟨path, rfl, rfl, rfl, -⟩, -⟩ := hr w₂ (.refl ..)
    intro w' hw
    obtain ⟨⟨path', hpath, -, -, hsite₂⟩, h₂⟩ := hr w' hw
    refine ⟨now, hnow, ?_, ?_, ?_, hsite₂⟩ <;> rw [hon]
    · rfl
    · exact he
    · exact h₂

end Precompiler

end ScriptPlugins
