import Mathlib.Logic.Function.Basic
import ScriptPlugins.Cache.Compile
import ScriptPlugins.Proofs.Cache.Boxes
import ScriptPlugins.Proofs.Compile.Lines
import ScriptPlugins.Proofs.Compiled.ClassText
import ScriptPlugins.Proofs.Compiled.Metadata
import ScriptPlugins.Proofs.Files.Room
import ScriptPlugins.Proofs.Job.Attempts

/-!
# Entries — what the cache holds for a name

An entry was made from one phase of a script, at some time.  From that follow both of its files, and
reading them gives back what was written.
-/

namespace ScriptPlugins

open ScriptPlugins.Language

/-! ## 1. What entries are made from -/

/-- What an entry was made from, and when. -/
structure Made where
  script : Script
  phase : Phase
  steps : List Step
  createdAt : Instant

namespace Made

variable (m : Made)

/-- The name of the entry. -/
def name : String := m.script.classNameOf m.phase

/-- The class in the entry. -/
def compiled : CompiledClass := ⟨m.name, m.phase, m.script.kind, m.steps⟩

/-- The metadata in the entry. -/
def metadata : Metadata where
  version := metadataVersion
  className := m.name
  contentHash := m.script.contentHash
  phase := m.phase
  kind := m.script.kind
  runDoesSomething := !m.steps.isEmpty
  hasMethods := false
  notes :=
    match m.phase with
    | .preamble => .none
    | .body => .buildScript (m.steps.any fun s => !s.action.isRequest)
  createdAt := m.createdAt

/-- An entry that compiling could have made. -/
structure Sound : Prop where
  steps : stepsOf m.phase m.phase.hook (m.script.sourceOf m.phase) = .ok m.steps
  lines : 1 + lineFeeds m.script.source.toList ≤ lineLimit
  createdAt : m.createdAt.valid = true

variable {m}

theorem Sound.readable (h : m.Sound) : m.compiled.Readable := by
  intro s hs
  have hline := line_of_stepsOf h.steps s hs
  have hfeeds := m.script.lineFeeds_sourceOf m.phase
  have hlines := h.lines
  omega

theorem Sound.readable_metadata (h : m.Sound) : m.metadata.Readable :=
  ⟨show metadataVersion ≤ versionLimit by decide, h.createdAt⟩

end Made

/-- What stands in both boxes of an entry. -/
structure Boxes where
  classes : Box
  metadata : Box

/-- Nothing stands where an entry would. -/
def Boxes.none : Boxes := ⟨Option.none, Option.none⟩

/-- Both files of an entry. -/
def Made.boxes (m : Made) : Boxes :=
  ⟨some (some m.compiled.print.toUTF8), some (some m.metadata.print.toUTF8)⟩

/-- What stands for an entry that may be missing. -/
def Boxes.ofMade : Option Made → Boxes
  | .none => .none
  | some m => m.boxes

/-- What looking at both boxes of an entry tells of it. -/
def UnitKey.judge (k : UnitKey) (b : Boxes) : Except BuildError Freshness :=
  match b.metadata.join with
  | .none => .ok .missing
  | some bytes =>
    if b.classes.join.isNone then .ok (.stale "class file missing")
    else
      match String.fromUTF8? bytes with
      | .none => .error (.files (metadataFile k.metadataDir) .notUnicode)
      | some text =>
        match Metadata.read text with
        | some m => .ok (k.freshness m)
        | .none =>
          .ok (.stale (LoadError.corrupt (metadataFile k.metadataDir) Json.refusal).message)

/-- An entry is judged by what it was made from. -/
theorem Made.judge_boxes {m : Made} (h : m.Sound) (k : UnitKey) :
    k.judge m.boxes = .ok (k.freshness m.metadata) := by
  have htext : String.fromUTF8? m.metadata.print.toUTF8 = some m.metadata.print :=
    FileTree.fromUTF8?_toUTF8 _
  rw [UnitKey.judge, boxes]
  simp only [Option.join_some, Option.isNone_some, Bool.false_eq_true, if_false, htext,
    Metadata.read_print h.readable_metadata]

namespace Cache

variable (c : Cache)

/-! ## 2. Where entries are -/

theorem isClassFileName_classFileName (name : String) :
    isClassFileName (classFileName name) = true := by
  rw [isClassFileName, classFileName, Text.withoutEnd?_append]
  rfl

/-- A name that an entry can have: its files have names and paths that the system takes. -/
structure Takes (name : String) : Prop where
  isName : IsName name
  file : IsName (classFileName name)
  classPath : FileTree.Fits (classFile (c.classesDir name) name)
  metadataPath : FileTree.Fits (metadataFile (c.metadataDir name))

instance (name : String) : Decidable (c.Takes name) :=
  decidable_of_iff (IsName name ∧ IsName (classFileName name) ∧
    FileTree.Fits (classFile (c.classesDir name) name) ∧
    FileTree.Fits (metadataFile (c.metadataDir name)))
    ⟨fun ⟨h₁, h₂, h₃, h₄⟩ => ⟨h₁, h₂, h₃, h₄⟩, fun ⟨h₁, h₂, h₃, h₄⟩ => ⟨h₁, h₂, h₃, h₄⟩⟩

theorem isName_metadata : IsName metadataFileName := by decide

variable {c} {name : String}

theorem Takes.classesDir (h : c.Takes name) : FileTree.Fits (c.classesDir name) :=
  h.classPath.of_join h.file.no_slash (Path.text_join_ne h.isName.step _)

theorem Takes.metadataDir (h : c.Takes name) : FileTree.Fits (c.metadataDir name) :=
  h.metadataPath.of_join isName_metadata.no_slash (Path.text_join_ne h.isName.step _)

/-- A cache with room below its roots takes every plain name that is not too long. -/
theorem Takes.of_plain (hclasses : FileTree.Room c.classesRoot 512)
    (hmetadata : FileTree.Room c.metadataRoot 512) (hname : PlainText name)
    (hshort : 2 < name.toList.length) (hlong : name.toList.length ≤ 240) : c.Takes name := by
  have hfile : PlainText (classFileName name) := hname.append (by decide +kernel)
  have hlength : (classFileName name).toList.length = name.toList.length + 11 := by
    rw [classFileName, String.toList_append, List.length_append]
    rfl
  have hlimit : FileTree.nameLimit = 255 := rfl
  refine ⟨hname.isName hshort (by omega), hfile.isName (by omega) (by omega), ?_, ?_⟩
  · exact ((hclasses.join (m := 255) hname (by omega)).join (m := 0) hfile (by omega)).fits
  · have hmetadataFile : metadataFileName.toList.length = 13 := rfl
    exact ((hmetadata.join (m := 255) hname (by omega)).join (m := 0) (by decide +kernel)
      (by omega)).fits

/-- The roots of a cache lie apart, and what lies directly below them belongs to the name it has,
for some names. -/
structure Seat (o : Owning) (C M : Location) (K : Set String) : Prop where
  classes : ∀ n ∈ K, ∀ r, o.owner (C ++ n :: r) = some n
  metadata : ∀ n ∈ K, ∀ r, o.owner (M ++ n :: r) = some n
  names : K ⊆ o.classNames
  apart : ¬C <+: M
  apart' : ¬M <+: C

/-- What may change while a cache is used: what is owned, and everything below its roots. -/
def owned (o : Owning) (C M : Location) : Set Location :=
  o.region Set.univ ∪ (FileTree.inside C ∪ FileTree.inside M)

/-- The boxes of some names stand below both roots of a cache. -/
structure Shelf (c : Cache) (o : Owning) (C M : Location) (K : Set String) (boxes : String → Boxes)
    (t : FileTree) : Prop where
  classesRoot : FileTree.Standing (owned o C M) t c.classesRoot C
  metadataRoot : FileTree.Standing (owned o C M) t c.metadataRoot M
  classes : ∀ n ∈ K, t.Stores (C ++ [n]) (classFileName n) (boxes n).classes
  metadata : ∀ n ∈ K, t.Stores (M ++ [n]) metadataFileName (boxes n).metadata

variable {o : Owning} {C M : Location} {K : Set String} {boxes : String → Boxes} {t t' : FileTree}

/-! ## 3. Changing an entry -/

namespace Seat

/-- What stands below a name of one root belongs to that name. -/
theorem owner_classes (hseat : Seat o C M K) (hn : name ∈ K) (r : Location) :
    o.owner (C ++ [name] ++ r) = some name := by
  rw [List.append_assoc]
  exact hseat.classes name hn r

theorem owner_metadata (hseat : Seat o C M K) (hn : name ∈ K) (r : Location) :
    o.owner (M ++ [name] ++ r) = some name := by
  rw [List.append_assoc]
  exact hseat.metadata name hn r

theorem subtree_classes (hseat : Seat o C M K) (hn : name ∈ K) :
    FileTree.subtree (C ++ [name]) ⊆ o.region K := by
  rintro l ⟨r, rfl⟩
  exact ⟨name, hn, hseat.owner_classes hn r⟩

theorem subtree_metadata (hseat : Seat o C M K) (hn : name ∈ K) :
    FileTree.subtree (M ++ [name]) ⊆ o.region K := by
  rintro l ⟨r, rfl⟩
  exact ⟨name, hn, hseat.owner_metadata hn r⟩

/-- Nothing lies below both roots. -/
theorem not_below_both (hseat : Seat o C M K) (r r' : Location) : C ++ r ≠ M ++ r' := by
  intro he
  have hc : C <+: M ++ r' := ⟨r, he⟩
  rcases List.prefix_or_prefix_of_prefix hc (List.prefix_append M r') with h | h
  · exact hseat.apart h
  · exact hseat.apart' h

end Seat

theorem region_subset_owned (K : Set String) : o.region K ⊆ owned o C M :=
  (Owning.region_mono (Set.subset_univ K)).trans Set.subset_union_left

/-- Whether something stands at a location of another name does not change. -/
theorem entry?_other {l : Location} {n n' : String} (hs : FileTree.SameOutside
    (FileTree.subtree (l ++ [n])) t t') (hn : n' ≠ n) (r : Location) :
    t'.entry? (l ++ [n'] ++ r) = t.entry? (l ++ [n'] ++ r) := by
  refine hs.entries _ fun hm => hn ?_
  obtain ⟨r', hr⟩ := hm
  simp only [List.append_assoc, List.append_cancel_left_eq, List.singleton_append,
    List.cons.injEq] at hr
  exact hr.1.symm

namespace Shelf

/-- Boxes stay as they are while the others change their part. -/
theorem stays (h : c.Shelf o C M K boxes t) (hseat : Seat o C M K)
    (hs : FileTree.SameOutside (o.region Kᶜ) t t') : c.Shelf o C M K boxes t' where
  classesRoot := h.classesRoot.stays (hs.mono (region_subset_owned _))
  metadataRoot := h.metadataRoot.stays (hs.mono (region_subset_owned _))
  classes n hn := (h.classes n hn).same fun r => hs.entries _ fun hm =>
    (Owning.mem_region (hseat.owner_classes hn r)).mp hm hn
  metadata n hn := (h.metadata n hn).same fun r => hs.entries _ fun hm =>
    (Owning.mem_region (hseat.owner_metadata hn r)).mp hm hn

/-- The class of one entry changes. -/
theorem setClasses (h : c.Shelf o C M K boxes t) (hseat : Seat o C M K) (hn : name ∈ K) {b : Box}
    (hs : FileTree.SameOutside (FileTree.subtree (C ++ [name])) t t')
    (hb : t'.Stores (C ++ [name]) (classFileName name) b) :
    c.Shelf o C M K (Function.update boxes name ⟨b, (boxes name).metadata⟩) t' where
  classesRoot := h.classesRoot.stays (hs.mono ((hseat.subtree_classes hn).trans
    (region_subset_owned K)))
  metadataRoot := h.metadataRoot.stays (hs.mono ((hseat.subtree_classes hn).trans
    (region_subset_owned K)))
  classes n hn' := by
    by_cases he : n = name
    · subst he
      rw [Function.update_self]
      exact hb
    · rw [Function.update_of_ne he]
      exact (h.classes n hn').same (entry?_other hs he)
  metadata n hn' := by
    have hmeta := (h.metadata n hn').same fun r => hs.entries (M ++ [n] ++ r) fun ⟨r', hr⟩ =>
      hseat.not_below_both ([name] ++ r') ([n] ++ r) (by rw [← List.append_assoc, hr,
        List.append_assoc])
    by_cases he : n = name
    · subst he
      rw [Function.update_self]
      exact hmeta
    · rw [Function.update_of_ne he]
      exact hmeta

/-- The metadata of one entry changes. -/
theorem setMetadata (h : c.Shelf o C M K boxes t) (hseat : Seat o C M K) (hn : name ∈ K) {b : Box}
    (hs : FileTree.SameOutside (FileTree.subtree (M ++ [name])) t t')
    (hb : t'.Stores (M ++ [name]) metadataFileName b) :
    c.Shelf o C M K (Function.update boxes name ⟨(boxes name).classes, b⟩) t' where
  classesRoot := h.classesRoot.stays (hs.mono ((hseat.subtree_metadata hn).trans
    (region_subset_owned K)))
  metadataRoot := h.metadataRoot.stays (hs.mono ((hseat.subtree_metadata hn).trans
    (region_subset_owned K)))
  classes n hn' := by
    have hclass := (h.classes n hn').same fun r => hs.entries (C ++ [n] ++ r) fun ⟨r', hr⟩ =>
      hseat.not_below_both ([n] ++ r) ([name] ++ r') (by rw [← List.append_assoc, ← hr,
        List.append_assoc])
    by_cases he : n = name
    · subst he
      rw [Function.update_self]
      exact hclass
    · rw [Function.update_of_ne he]
      exact hclass
  metadata n hn' := by
    by_cases he : n = name
    · subst he
      rw [Function.update_self]
      exact hb
    · rw [Function.update_of_ne he]
      exact (h.metadata n hn').same (entry?_other hs he)

/-! ## 4. Reading an entry -/

variable {s : Script} {phase : Phase}

theorem stores (h : c.Shelf o C M K boxes t) {m : Made} (hm : boxes name = m.boxes)
    (hn : name ∈ K) :
    t.Stores (C ++ [name]) (classFileName name) (some (some m.compiled.print.toUTF8)) ∧
      t.Stores (M ++ [name]) metadataFileName (some (some m.metadata.print.toUTF8)) := by
  have h₁ := h.classes name hn
  have h₂ := h.metadata name hn
  rw [hm] at h₁ h₂
  exact ⟨h₁, h₂⟩

/-- Metadata is read back. -/
theorem readMetadata (h : c.Shelf o C M K boxes t) (hn : name ∈ K) (ht : c.Takes name) {m : Made}
    (hm : boxes name = m.boxes) (hs : m.Sound) :
    t.readMetadata (c.metadataDir name) = .ok m.metadata := by
  have htext := (h.stores hm hn).2.readText h.metadataRoot ht.isName isName_metadata ht.metadataPath
  rw [FileTree.readMetadata, metadataFile, metadataDir, htext]
  simp only [Metadata.read_print hs.readable_metadata]

/-- The class of an entry is all that its directory holds. -/
theorem readClasses (h : c.Shelf o C M K boxes t) (hn : name ∈ K) (ht : c.Takes name) {m : Made}
    (hm : boxes name = m.boxes) (hs : m.Sound) :
    t.readClasses (c.classesDir name) = .ok [m.compiled] := by
  have hstores := (h.stores hm hn).1
  have hlist := hstores.list h.classesRoot ht.isName ht.classesDir
  have hlook := hstores.look h.classesRoot ht.isName ht.file ht.classPath
  have htext := hstores.readText h.classesRoot ht.isName ht.file ht.classPath
  have hread : t.readClass ((c.classesRoot.join name).join (classFileName name)) =
      .ok m.compiled := by
    rw [FileTree.readClass, htext]
    simp only [CompiledClass.read_print hs.readable]
  rw [FileTree.readClasses, classesDir, hlist]
  simp only [List.map_cons, List.map_nil, List.filter_cons, isClassFileName_classFileName,
    FileTree.isFile_of_look hlook, Bool.and_self, if_true, List.filter_nil, List.mapM_cons, hread,
    List.mapM_nil]
  show Except.ok (List.mergeSort [m.compiled] _) = _
  rw [List.mergeSort_singleton]

/-- Looking at an entry tells what its boxes tell. -/
theorem probe (h : c.Shelf o C M K boxes t) (hn : s.classNameOf phase ∈ K)
    (ht : c.Takes (s.classNameOf phase)) :
    (c.key s phase).probe t = (c.key s phase).judge (boxes (s.classNameOf phase)) := by
  have hclasses := h.classes _ hn
  have hmetadata := h.metadata _ hn
  have hclass : t.isThere (classFile (c.key s phase).classesDir (c.key s phase).className) = _ :=
    hclasses.isThere h.classesRoot ht.isName ht.file ht.classPath
  have hmeta : t.isThere (metadataFile (c.key s phase).metadataDir) = _ :=
    hmetadata.isThere h.metadataRoot ht.isName isName_metadata ht.metadataPath
  rw [UnitKey.probe, UnitKey.judge, hclass, hmeta]
  match hb : (boxes (s.classNameOf phase)).metadata with
  | none | some none => rfl
  | some (some bytes) =>
    rw [hb] at hmetadata
    have htext : t.readText (metadataFile (c.key s phase).metadataDir) = _ := FileTree.readText_eq
      (hmetadata.look h.metadataRoot ht.isName isName_metadata ht.metadataPath)
    rw [FileTree.readMetadata, htext]
    simp only [Option.join_some, Option.isSome_some, Bool.not_true, Bool.false_eq_true, if_false]
    rw [Option.not_isSome]
    split
    · rfl
    · cases String.fromUTF8? bytes with
      | none => rfl
      | some text =>
        simp only [Option.elim_some]
        cases Metadata.read text <;> rfl

end Shelf

end Cache

end ScriptPlugins
