import ScriptPlugins.Proofs.Cache.Damage
import ScriptPlugins.Proofs.Cache.Stages
import ScriptPlugins.Proofs.Compiled.Torn
import ScriptPlugins.Proofs.Job.Stopping

/-!
# Interruptions — the cache survives being stopped

Metadata is the record that an entry is complete.  It goes after its class when an entry is removed,
and comes after it when one is written, so that it never stands beside a class file which is not the
whole of what it records.  A part of it records nothing.
-/

namespace ScriptPlugins

open FileTree Owning

/-! ## 1. What is left of an entry -/

/-- What is left of an entry when compiling was stopped: no metadata, with anything for a class
file, or some of the metadata of what was compiled, with no class file or the whole one. -/
inductive Boxes.Remains (used : Set Script) (n : String) (b : Boxes) : Prop
  | bare (hmetadata : b.metadata.join = .none)
  | recorded (m : Made) (hsound : m.Sound) (hname : m.name = n) (hused : m.script ∈ used) (k : Nat)
      (hmetadata : b.metadata.join = some (m.metadata.print.toUTF8.extract 0 k))
      (hclasses : b.classes.join = .none ∨ b.classes.join = some m.compiled.print.toUTF8)

variable {used : Set Script} {c : Cache} {s : Script} {phase : Phase} {name : String} {b : Boxes}

/-- Some of the metadata of an entry is all of it, or says nothing. -/
theorem Made.metadata_extract (m : Made) (k : Nat) :
    m.metadata.print.toUTF8.extract 0 k = m.metadata.print.toUTF8 ∨
      ∃ text, m.metadata.print.toUTF8.extract 0 k = text.toUTF8 ∧ Metadata.read text = none := by
  have hname : Ascii m.metadata.className.toList := (m.script.plain_classNameOf m.phase).1.ascii
  have hhash : Ascii m.metadata.contentHash.toList := Ascii.digestText m.script.source
  by_cases hk : k < m.metadata.print.toUTF8.size
  · exact .inr (Metadata.exists_text_of_torn hname hhash hk)
  · left
    have hall := ByteArray.extract_zero_max_size (a := m.metadata.print.toUTF8) (i := k)
    rwa [Nat.max_eq_left (by omega)] at hall

/-- What is left of an entry is whole if it looks fresh. -/
theorem Boxes.Remains.honest (h : b.Remains used (s.classNameOf phase)) :
    b.Honest used (c.key s phase) := by
  cases h with
  | bare hmetadata =>
    have hjudge : (c.key s phase).judge b = .ok .missing := by rw [UnitKey.judge, hmetadata]
    exact ⟨by rw [hjudge]; rfl, fun hf => by rw [hjudge] at hf; cases hf⟩
  | recorded m hsound hname hused k hmetadata hclasses =>
    rcases hclasses with hclasses | hclasses
    · have hjudge : (c.key s phase).judge b = .ok (.stale "class file missing") := by
        rw [UnitKey.judge, hmetadata, hclasses]
        rfl
      exact ⟨by rw [hjudge]; rfl, fun hf => by rw [hjudge] at hf; cases hf⟩
    · rcases m.metadata_extract k with hall | ⟨text, htext, hread⟩
      · have hwhole : b = m.boxes := by
          rw [hall, Option.join_eq_some_iff] at hmetadata
          rw [Option.join_eq_some_iff] at hclasses
          rw [Made.boxes, ← hclasses, ← hmetadata]
        have hjudge : (c.key s phase).judge b = .ok _ := hwhole ▸ Made.judge_boxes hsound _
        exact ⟨by rw [hjudge]; rfl, fun _ => ⟨m, hsound, hused, hwhole⟩⟩
      · have hjudge : ∃ reason, (c.key s phase).judge b = .ok (.stale reason) := by
          rw [UnitKey.judge, hmetadata, hclasses, htext]
          simp only [Option.isNone_some, Bool.false_eq_true, if_false, fromUTF8?_toUTF8, hread]
          exact ⟨_, rfl⟩
        obtain ⟨reason, hreason⟩ := hjudge
        exact ⟨by rw [hreason]; rfl, fun hf => by rw [hreason] at hf; cases hf⟩

/-- There is no metadata. -/
def Boxes.Bare (b : Boxes) : Prop := b.metadata.join = .none

/-- There is no metadata, and a directory for the class file. -/
def Boxes.Opened (b : Boxes) : Prop := b.Bare ∧ ∃ o, b.classes = some o

/-- There is no metadata beside the whole class file of an entry. -/
def Boxes.Filled (m : Made) (b : Boxes) : Prop :=
  b.Bare ∧ b.classes.join = some m.compiled.print.toUTF8

/-- There is no metadata beside the whole class file of an entry, and a directory for it. -/
def Boxes.Ready (m : Made) (b : Boxes) : Prop := b.Filled m ∧ ∃ o, b.metadata = some o

namespace Boxes.Remains

/-- The class file goes first. -/
theorem removeClasses (h : b.Remains used name) : Boxes.Remains used name ⟨.none, b.metadata⟩ := by
  cases h with
  | bare hmetadata => exact .bare hmetadata
  | recorded m hsound hname hused k hmetadata hclasses =>
    exact .recorded m hsound hname hused k hmetadata (.inl rfl)

end Boxes.Remains

/-- Metadata that is there was looked at. -/
theorem UnitKey.metadata_of_judge {k : UnitKey} (h : k.judge b = .ok .missing) :
    b.metadata.join = .none := by
  cases hmetadata : b.metadata.join with
  | none => rfl
  | some bytes =>
    rw [UnitKey.judge, hmetadata] at h
    simp only at h
    split at h
    · cases h
    · split at h
      · cases h
      · split at h
        · rw [UnitKey.freshness] at h
          split at h
          · cases h
          split at h
          · cases h
          split at h <;> cases h
        · cases h

namespace Cache

/-! ## 2. Files after an interruption -/

/-- Files in which a cache lies whose entries are what is left of them; what is left for one name is
of some kind. -/
structure Held (c : Cache) (C M : Location) (used : Set Script) (name : String) (B : Boxes → Prop)
    (t : FileTree) : Prop where
  housed : c.Housed C M t
  boxes : ∃ boxes, c.Shelf (owning C M 0) C M Set.univ boxes t ∧
    (∀ n, (boxes n).Remains used n) ∧ B (boxes name)

/-- Files in which a cache lies whose entries are what is left of them. -/
structure Weathered (c : Cache) (C M : Location) (used : Set Script) (t : FileTree) : Prop where
  housed : c.Housed C M t
  boxes : ∃ boxes, c.Shelf (owning C M 0) C M Set.univ boxes t ∧ ∀ n, (boxes n).Remains used n

variable {C M : Location} {t t' : FileTree} {B B' : Boxes → Prop} {now : Instant}

theorem Held.weathered (t : FileTree) (h : c.Held C M used name B t) : c.Weathered C M used t :=
  ⟨h.housed, h.boxes.imp fun _ h => ⟨h.1, h.2.1⟩⟩

/-- The boxes of one name have changed. -/
theorem Held.of_update (hh : c.Housed C M t) {boxes : String → Boxes}
    (hsame : SameOutside ((owning C M 0).region Set.univ) t t')
    (hshelf : c.Shelf (owning C M 0) C M Set.univ (Function.update boxes name b) t')
    (hold : ∀ n, (boxes n).Remains used n) (hnew : b.Remains used name) (hb : B b) :
    c.Held C M used name B t' := by
  refine ⟨hh.stays (hsame.mono ((region_subset_owned _).trans owned_subset)), _, hshelf,
    fun n => ?_, by rwa [Function.update_self]⟩
  by_cases he : n = name
  · rw [he, Function.update_self]
    exact hnew
  · rw [Function.update_of_ne he]
    exact hold n

/-! ## 3. Removing and writing an entry -/

/-- Removing a directory that may be missing. -/
theorem withstands_removeIfThere {I P P' : FileTree → Prop} {dir : Path} (hi : ∀ t, P t → I t)
    (hi' : ∀ t, P' t → I t)
    (h : ∀ t, P t → ∃ reply t', t.removeDirectory dir = (reply, t') ∧
      (reply = .ok () ∨ reply = .error .notFound) ∧ P' t') :
    Attempt.Withstands now I P (removeIfThere dir) fun _ => P' := by
  constructor
  · intro w w' _ hw hs
    obtain ⟨reply, t', ht, hreply, hp⟩ := h _ hw
    have hperform : Op.perform (.change (.removeDirectory dir)) w =
        (reply, { w with files := t' }) := by
      rw [Op.perform, FileTree.apply, ht]
    rcases hs with rfl | hs | hs
    · exact hi _ hw
    · exact hs.elim
    · rw [hperform] at hs
      rcases hreply with rfl | rfl
      · exact hi' _ ((show w' = { w with files := t' } from hs) ▸ hp)
      · exact hi' _ ((show w' = { w with files := t' } from hs) ▸ hp)
  · intro w w' a _ hw hr
    obtain ⟨reply, t', ht, hreply, hp⟩ := h _ hw
    rw [run_removeIfThere ht hreply] at hr
    cases hr
    exact hp

/-- An entry is removed class first, so that its metadata stands alone in between. -/
theorem withstands_remove (ht : c.Takes name) :
    Attempt.Withstands now (c.Weathered C M used) (c.Weathered C M used) (c.remove name)
      fun _ => c.Held C M used name Boxes.Bare := by
  have hclasses : Attempt.Withstands now (c.Weathered C M used) (c.Weathered C M used)
      (removeIfThere (c.classesDir name)) fun _ => c.Weathered C M used := by
    refine withstands_removeIfThere (fun _ h => h) (fun _ h => h) fun t h => ?_
    obtain ⟨boxes, hshelf, hremains⟩ := h.boxes
    obtain ⟨reply, t', hrem, hreply, hsame, hset⟩ :=
      hshelf.removeClasses (h.housed.seat 0) (Set.mem_univ name) ht
    have hheld : c.Held C M used name (fun _ => True) t' :=
      .of_update h.housed hsame hset hremains (hremains name).removeClasses trivial
    exact ⟨reply, t', hrem, hreply, hheld.weathered⟩
  refine hclasses.bind fun _ => ?_
  refine withstands_removeIfThere (fun _ h => h) Held.weathered fun t h => ?_
  obtain ⟨boxes, hshelf, hremains⟩ := h.boxes
  obtain ⟨reply, t', hrem, hreply, hsame, hset⟩ :=
    hshelf.removeMetadata (h.housed.seat 0) (Set.mem_univ name) ht
  exact ⟨reply, t', hrem, hreply, .of_update h.housed hsame hset hremains (.bare rfl) rfl⟩

/-- A class file is written where there is no metadata. -/
theorem withstands_writeClass (ht : c.Takes name) {m : Made} (hname : m.name = name) :
    Attempt.Withstands now (c.Weathered C M used) (c.Held C M used name Boxes.Bare)
      (writeClass (c.classesDir name) m.compiled)
      fun _ => c.Held C M used name (Boxes.Filled m) := by
  have hfile : m.compiled.name = name := hname
  rw [writeClass, hfile]
  refine Attempt.Withstands.bind (Q := fun _ => c.Held C M used name Boxes.Opened)
    (.change (fun _ _ h => h) Held.weathered fun t h => ?_) fun _ =>
    .bind (Q := fun _ => c.Held C M used name (Boxes.Filled m))
      (.writeFile Held.weathered (fun t h k => ?_) fun t h => ?_) fun _ => .pure _ Held.weathered
  · obtain ⟨boxes, hshelf, hremains, hbare⟩ := h.boxes
    obtain ⟨t', hmake, hsame, hset⟩ := hshelf.makeClasses (h.housed.seat 0) (Set.mem_univ name) ht
    have hheld : c.Held C M used name Boxes.Opened t' :=
      .of_update h.housed hsame hset hremains (.bare hbare) ⟨hbare, _, rfl⟩
    exact ⟨.ok (), t', hmake, hheld.weathered, fun _ => hheld⟩
  · obtain ⟨boxes, hshelf, hremains, hbare, o, ho⟩ := h.boxes
    obtain ⟨t', hwrite, hsame, hset⟩ :=
      hshelf.writeClass (h.housed.seat 0) (Set.mem_univ name) ht ho
        (m.compiled.print.toUTF8.extract 0 k)
    have hheld : c.Held C M used name Boxes.Bare t' :=
      .of_update h.housed hsame hset hremains (.bare hbare) hbare
    exact ⟨t', hwrite, hheld.weathered⟩
  · obtain ⟨boxes, hshelf, hremains, hbare, o, ho⟩ := h.boxes
    obtain ⟨t', hwrite, hsame, hset⟩ :=
      hshelf.writeClass (h.housed.seat 0) (Set.mem_univ name) ht ho m.compiled.print.toUTF8
    exact ⟨t', hwrite, .of_update h.housed hsame hset hremains (.bare hbare) ⟨hbare, rfl⟩⟩

/-- Metadata is written beside the class file that it records. -/
theorem withstands_writeMetadata (ht : c.Takes name) {m : Made} (hsound : m.Sound)
    (hname : m.name = name) (hused : m.script ∈ used) :
    Attempt.Withstands now (c.Weathered C M used) (c.Held C M used name (Boxes.Filled m))
      (writeMetadata (c.metadataDir name) m.metadata) fun _ => c.Weathered C M used := by
  have hwritten (t : FileTree) (h : c.Held C M used name (Boxes.Ready m) t) (k : Nat) :
      ∃ t', t.writeFile (metadataFile (c.metadataDir name))
        (m.metadata.print.toUTF8.extract 0 k) = .ok t' ∧ c.Weathered C M used t' := by
    obtain ⟨boxes, hshelf, hremains, ⟨hbare, hclass⟩, o, ho⟩ := h.boxes
    obtain ⟨t', hwrite, hsame, hset⟩ :=
      hshelf.writeMetadata (h.housed.seat 0) (Set.mem_univ name) ht ho
        (m.metadata.print.toUTF8.extract 0 k)
    have hheld : c.Held C M used name (fun _ => True) t' :=
      .of_update h.housed hsame hset hremains
        (.recorded m hsound hname hused k rfl (.inr hclass)) trivial
    exact ⟨t', hwrite, hheld.weathered⟩
  rw [writeMetadata]
  refine Attempt.Withstands.bind (Q := fun _ => c.Held C M used name (Boxes.Ready m))
    (.change (fun _ _ h => h) Held.weathered fun t h => ?_) fun _ =>
      .writeFile Held.weathered hwritten fun t h => ?_
  · obtain ⟨boxes, hshelf, hremains, hbare, hclass⟩ := h.boxes
    obtain ⟨t', hmake, hsame, hset⟩ := hshelf.makeMetadata (h.housed.seat 0) (Set.mem_univ name) ht
    have hheld : c.Held C M used name (Boxes.Ready m) t' :=
      .of_update h.housed hsame hset hremains (.bare hbare) ⟨⟨hbare, hclass⟩, _, rfl⟩
    exact ⟨.ok (), t', hmake, hheld.weathered, fun _ => hheld⟩
  · have hall := hwritten t h m.metadata.print.toUTF8.size
    rwa [ByteArray.extract_zero_size] at hall

/-! ## 4. Compiling a script -/

variable {compiler : Compiler}

/-- A phase is compiled where there is no metadata. -/
theorem withstands_compileEntry (hs : s.FitsIn c) (hmem : s ∈ used) (hnow : now.valid = true) :
    Attempt.Withstands now (c.Weathered C M used)
      (c.Held C M used (s.classNameOf phase) Boxes.Bare) (c.compileEntry compiler s phase)
      fun _ => c.Weathered C M used := by
  have ht := hs.names phase
  rw [compileEntry]
  split
  · exact .throw _ Held.weathered
  · refine (Attempt.Withstands.adapt ?_).bind fun _ =>
      (Attempt.LeavesFiles.report _).withstands fun _ h => h
    rw [UnitKey.compile]
    refine (Attempt.Withstands.of Held.weathered).bind fun steps => .known fun hsteps => ?_
    refine (Attempt.Withstands.observe Held.weathered).bind fun seen => .known fun hseen => ?_
    -- What is written from here on is the entry that compiling makes.
    let m : Made := ⟨s, phase, steps, seen.now⟩
    have hsound : m.Sound := ⟨hsteps, hs.lines, by rwa [← hseen] at hnow⟩
    have hclass : Attempt.Withstands now (c.Weathered C M used)
        (c.Held C M used (s.classNameOf phase) Boxes.Bare)
        (writeClass (c.classesDir (s.classNameOf phase)) m.compiled)
        fun _ => c.Held C M used (s.classNameOf phase) (Boxes.Filled m) :=
      withstands_writeClass ht rfl
    have hmetadata : Attempt.Withstands now (c.Weathered C M used)
        (c.Held C M used (s.classNameOf phase) (Boxes.Filled m))
        (writeMetadata (c.metadataDir (s.classNameOf phase)) m.metadata)
        fun _ => c.Weathered C M used := withstands_writeMetadata ht hsound rfl hmem
    exact hclass.adapt.discard.bind fun _ => hmetadata.adapt.bind fun _ =>
      (Attempt.LeavesFiles.report _).withstands fun _ h => h

/-- An entry is made fresh. -/
theorem withstands_refresh (hs : s.FitsIn c) (hmem : s ∈ used) (hnow : now.valid = true) :
    Attempt.Withstands now (c.Weathered C M used) (c.Weathered C M used)
      (c.refresh compiler s phase) fun _ => c.Weathered C M used := by
  have ht := hs.names phase
  have hstay (t : FileTree) (h : c.Weathered C M used t) : c.Weathered C M used t := h
  have hcompile : Attempt.Withstands now (c.Weathered C M used)
      (c.Held C M used (s.classNameOf phase) Boxes.Bare)
      (do c.compileEntry compiler s phase; return true : Attempt BuildError Bool)
      fun _ => c.Weathered C M used :=
    (withstands_compileEntry hs hmem hnow).bind fun _ => .pure _ hstay
  rw [refresh_eq]
  refine (Attempt.Withstands.files hstay).bind fun seen => ?_
  refine (Attempt.Withstands.of fun _ h => h.2).bind fun f => .known fun hprobe => ?_
  cases f with
  | fresh =>
    refine Attempt.Withstands.imp ?_ (fun _ h => h.2) fun _ _ h => h
    exact ((Attempt.LeavesFiles.report _).withstands hstay).bind fun _ => .pure _ hstay
  | missing =>
    refine hcompile.imp (fun t h => ?_) fun _ _ h => h
    obtain ⟨rfl, h⟩ := h
    obtain ⟨boxes, hshelf, hremains⟩ := h.boxes
    rw [hshelf.probe (Set.mem_univ _) ht] at hprobe
    exact ⟨h.housed, boxes, hshelf, hremains, UnitKey.metadata_of_judge hprobe⟩
  | stale reason =>
    refine Attempt.Withstands.imp ?_ (fun _ h => h.2) fun _ _ h => h
    exact ((Attempt.LeavesFiles.report _).withstands hstay).bind fun _ =>
      (withstands_remove ht).bind fun _ => hcompile

/-- **Compiling a script withstands being stopped anywhere**, in whatever scope and however it
ends. -/
theorem withstands_compileScript (compiler : Compiler) (scope : Nat) (hs : s.FitsIn c)
    (hmem : s ∈ used) (hnow : now.valid = true) :
    Attempt.Withstands now (c.Weathered C M used) (c.Weathered C M used)
      (c.compileScript compiler s scope) fun _ => c.Weathered C M used := by
  have hstay (t : FileTree) (h : c.Weathered C M used t) : c.Weathered C M used t := h
  have hphase (phase : Phase) : Attempt.Withstands now (c.Weathered C M used)
      (c.Weathered C M used) (c.compilePhase compiler s scope phase)
      fun _ => c.Weathered C M used :=
    (withstands_refresh hs hmem hnow).bind fun compiled =>
      (leavesFiles_loadPhase phase scope compiled).withstands hstay
  have hpreamble : Attempt.Withstands now (c.Weathered C M used) (c.Weathered C M used)
      (c.compilePreamble compiler s scope) fun _ => c.Weathered C M used := by
    rw [compilePreamble]
    split
    · exact (hphase .preamble).bind fun _ => .pure _ hstay
    · exact .pure _ hstay
  exact hpreamble.bind fun _ => (hphase .body).bind fun _ => .pure _ hstay

/-! ## 5. Histories with interruptions -/

/-- The worlds that a cache may come to if some scripts are compiled through it, each of them to its
end or until it is stopped.  Between two of them everything but the files may change, as in another
session. -/
inductive Interrupted (c : Cache) (C M : Location) (used : Set Script) : World → Prop where
  | start {w : World} (h : c.Fresh C M w) : Interrupted c C M used w
  | compile {w w' : World} (compiler : Compiler) (s : Script) (scope : Nat) (hs : s ∈ used)
      (h : Interrupted c C M used w) (hstop : (c.compileScript compiler s scope).run.Stops w w') :
      Interrupted c C M used w'
  | session {w w' : World} (h : Interrupted c C M used w) (hfiles : w'.files = w.files)
      (hscopes : w'.scopes.Sound) (hnow : w'.now.valid = true) : Interrupted c C M used w'

variable {w : World}

/-- **No interruption brings a cache out of order.** -/
theorem Interrupted.weathered (hfits : ∀ s ∈ used, s.FitsIn c) (h : c.Interrupted C M used w) :
    c.Weathered C M used w.files ∧ w.now.valid = true := by
  induction h with
  | start h =>
    exact ⟨⟨h.housed, _, h.housed.shelf h.classes h.metadata, fun _ => .bare rfl⟩, h.now⟩
  | compile compiler s scope hs _ hstop ih =>
    have hstops := withstands_compileScript (C := C) (M := M) compiler scope (hfits s hs) hs ih.2
    exact ⟨hstops.stops rfl ih.1 hstop, (Job.now_stops hstop).symm ▸ ih.2⟩
  | session _ hfiles _ hnow ih => exact ⟨hfiles ▸ ih.1, hnow⟩

theorem Interrupted.sound (h : c.Interrupted C M used w) : w.scopes.Sound := by
  induction h with
  | start h => exact h.scopes
  | compile _ _ _ _ _ hstop ih =>
    exact Job.keeps_stops (P := fun w => w.scopes.Sound) (fun op _ h => sound_perform op h) ih hstop
  | session _ _ hscopes => exact hscopes

/-- The metadata of a cache commits to its class files: where it can be read and there is a class
file, that is the whole class which was compiled when the metadata was made. -/
def Committed (c : Cache) (used : Set Script) (t : FileTree) : Prop :=
  ∀ name record, c.Takes name → t.readMetadata (c.metadataDir name) = .ok record →
    t.isThere (classFile (c.classesDir name) name) = true →
    ∃ m : Made, m.Sound ∧ m.script ∈ used ∧ m.name = name ∧ m.metadata = record ∧
      t.readText (classFile (c.classesDir name) name) = .ok m.compiled.print

/-- Metadata that can be read is a text that says it. -/
theorem exists_text_of_readMetadata {dir : Path} {record : Metadata}
    (h : t.readMetadata dir = .ok record) :
    ∃ text, t.readText (metadataFile dir) = .ok text ∧ Metadata.read text = some record := by
  rw [FileTree.readMetadata] at h
  cases htext : t.readText (metadataFile dir) with
  | error e =>
    simp only [htext] at h
    cases h
  | ok text =>
    simp only [htext] at h
    cases hread : Metadata.read text with
    | none =>
      simp only [hread] at h
      cases h
    | some m =>
      simp only [hread] at h
      cases h
      exact ⟨text, rfl, hread⟩

/-- What is left of the entries of a cache is committed to. -/
theorem Weathered.committed (h : c.Weathered C M used t) : c.Committed used t := by
  intro name record ht hrecord hthere
  obtain ⟨boxes, hshelf, hremains⟩ := h.boxes
  have hn := Set.mem_univ name
  have hclass := hshelf.classes name hn
  have hmeta := hshelf.metadata name hn
  obtain ⟨text, htext, hread⟩ := exists_text_of_readMetadata hrecord
  cases hremains name with
  | bare hmetadata =>
    have hgone : t.isThere (metadataFile (c.metadataDir name)) = _ :=
      hmeta.isThere hshelf.metadataRoot ht.isName isName_metadata ht.metadataPath
    rw [isThere_of_readText htext, hmetadata] at hgone
    cases hgone
  | recorded m hsound hname hused k hmetadata hclasses =>
    rw [Option.join_eq_some_iff] at hmetadata
    rcases hclasses with hclasses | hclasses
    · have hgone : t.isThere (classFile (c.classesDir name) name) = _ :=
        hclass.isThere hshelf.classesRoot ht.isName ht.file ht.classPath
      rw [hthere, hclasses] at hgone
      cases hgone
    · rw [Option.join_eq_some_iff] at hclasses
      rw [hclasses] at hclass
      rw [hmetadata] at hmeta
      -- A torn write leaves a front part of the text: all of it, or one that cannot be read.
      rcases m.metadata_extract k with hall | ⟨part, hpart, hnone⟩
      · rw [hall] at hmeta
        have hwhole : t.readText (metadataFile (c.metadataDir name)) = _ :=
          hmeta.readText hshelf.metadataRoot ht.isName isName_metadata ht.metadataPath
        obtain rfl : text = m.metadata.print := Except.ok.inj (htext.symm.trans hwhole)
        have hsame := Metadata.read_print hsound.readable_metadata
        exact ⟨m, hsound, hused, hname, Option.some.inj (hsame.symm.trans hread),
          hclass.readText hshelf.classesRoot ht.isName ht.file ht.classPath⟩
      · rw [hpart] at hmeta
        have htorn : t.readText (metadataFile (c.metadataDir name)) = _ :=
          hmeta.readText hshelf.metadataRoot ht.isName isName_metadata ht.metadataPath
        obtain rfl : text = part := Except.ok.inj (htext.symm.trans htorn)
        rw [hnone] at hread
        cases hread

/-- **The cache survives being stopped.**  Whatever was compiled through it, to the end or not, its
metadata commits to its class files, and the next script that is compiled in a new scope answers
what it says, if its source is mistaken for none that was used before. -/
theorem compileScript_survives (hfits : ∀ s ∈ used, s.FitsIn c) (h : c.Interrupted C M used w) :
    c.Committed used w.files ∧
      ∀ s, s.FitsIn c → Unmistaken used s → ∀ parent, w.scopes.isLive parent = true → ∀ child,
        (Job.run (c.compileInChild .steady s parent child).run w).1.map CompiledScript.content =
          s.content := by
  obtain ⟨hweathered, hnow⟩ := h.weathered hfits
  refine ⟨hweathered.committed, fun s hs hsource parent hparent child => ?_⟩
  obtain ⟨boxes, hshelf, hremains⟩ := hweathered.boxes
  have husable : c.Usable C M Set.univ boxes w := ⟨hweathered.housed, hshelf, h.sound, hnow⟩
  exact husable.content_compileInChild (fun _ => Set.mem_univ _) hs
    (fun phase => (hremains (s.classNameOf phase)).honest) hsource hparent child

/-- A script that compiles has an entry for its body then. -/
theorem Sane.readMetadata_compileInChild (h : c.Sane C M used t w) (hs : s.FitsIn c)
    (hmem : s ∈ used) (hplan : ∀ phase, (s.plan compiler phase).isOk = true) {parent : Nat}
    (hparent : w.scopes.isLive parent = true) (child : String) {t' : FileTree}
    (ht' : (Job.run (c.compileInChild compiler s parent child).run w).2.files = t') :
    ∃ record, t'.readMetadata (c.metadataDir (s.classNameOf .body)) = .ok record ∧
      t'.isThere (classFile (c.classesDir (s.classNameOf .body)) (s.classNameOf .body)) = true := by
  obtain ⟨sc, hsc⟩ := Option.isSome_iff_exists.mp hparent
  rw [run_compileInChild hsc] at ht'
  subst ht'
  obtain ⟨made, hmade, hon⟩ := h.on_grown hsc child
  let g : Stage := ⟨made, fun _ => none, 0⟩
  obtain ⟨-, -, -, times, htimes, g', hg', -, hon'⟩ := (ends_compileScript compiler
    (h.housed.seat _) (fun _ => Set.mem_univ _) hs hon fun _ => rfl).run
  have hloads := loads_scriptOn compiler w.scopes.slots.length (g := g) hmade hs hmem htimes
  obtain ⟨-, pre, -, ⟨err, g₂, hg₂, -⟩ | ⟨m, _, g₂, hg₂, hsuits, -, hloads⟩⟩ := hloads
  · -- A script whose phases all plan does not fail on its stage.
    obtain ⟨r, g₁, hr⟩ : ∃ r g₁, c.scriptOn compiler s w.scopes.slots.length times g =
        (.ok r, g₁) :=
      scriptOn_of_plan _ hplan times g
    rw [hr] at hg₂
    cases hg₂
  · obtain rfl : g' = g₂ := congrArg Prod.snd (hg'.symm.trans hg₂)
    have ht := hs.names .body
    have hn := Set.mem_univ (s.classNameOf .body)
    have hm : g'.made (s.classNameOf .body) = some m :=
      hsuits.name ▸ hloads.made m (List.mem_append_right _ List.mem_cons_self)
    have hboxes : (Boxes.ofMade ∘ g'.made) (s.classNameOf .body) = m.boxes :=
      congrArg Boxes.ofMade hm
    have hshelf := hon'.knows.shelf
    have hclass := (hshelf.stores hboxes hn).1.readText hshelf.classesRoot ht.isName ht.file
      ht.classPath
    exact ⟨_, hshelf.readMetadata hn ht hboxes (hon'.sound _ hn _ hm).2, isThere_of_readText hclass⟩

/-- A script that is compiled in a new scope is part of the history. -/
theorem Interrupted.compileInChild (hfits : ∀ s ∈ used, s.FitsIn c) (h : c.Interrupted C M used w)
    (compiler : Compiler) (hs : s ∈ used) {parent : Nat} (hparent : w.scopes.isLive parent = true)
    (child : String) :
    c.Interrupted C M used (Job.run (c.compileInChild compiler s parent child).run w).2 := by
  obtain ⟨sc, hsc⟩ := Option.isSome_iff_exists.mp hparent
  have hgrown : c.Interrupted C M used (grownWorld w parent sc child) :=
    h.session rfl (h.sound.grown hsc child) (h.weathered hfits).2
  rw [run_compileInChild hsc]
  exact hgrown.compile compiler s _ hs (Job.stops_run _ _)

/-- The theorem for a script whose first compiling was stopped one byte into its metadata, and for
one that was compiled to the end. -/
theorem compileScript_survives_stopped :
    (∃ m : Made, m.Sound ∧ m.script = smallScript ∧ m.phase = .body ∧
      (Job.run (small.compileInChild .steady smallScript 0 "first").run
        smallWorld).2.files.readText (classFile (small.classesDir (smallScript.classNameOf .body))
          (smallScript.classNameOf .body)) = .ok m.compiled.print) ∧
    (Job.run (small.compileInChild .steady smallScript 0 "next").run { smallWorld with
      files := ((small.compileScript .steady smallScript 0).run.stoppedAt 5 1
        smallWorld).files }).1.map CompiledScript.content = smallScript.content := by
  have hfits : ∀ s ∈ ({smallScript} : Set Script), s.FitsIn small := fun s hs =>
    (show s = smallScript from hs) ▸ fitsIn_smallScript
  have hroot : smallWorld.scopes.isLive 0 = true := rfl
  have hstart : small.Interrupted ["c"] ["m"] {smallScript} smallWorld := .start fresh_smallWorld
  refine ⟨?_, ?_⟩
  · have hsane : small.Sane ["c"] ["m"] {smallScript} smallWorld.files smallWorld :=
      fresh_smallWorld.sane
    have hplan (phase : Phase) : (smallScript.plan .steady phase).isOk = true := by
      cases phase <;> decide +kernel
    obtain ⟨record, hrecord, hthere⟩ := hsane.readMetadata_compileInChild fitsIn_smallScript rfl
      hplan hroot "first" rfl
    have hdone := hstart.compileInChild hfits .steady (s := smallScript) rfl hroot "first"
    obtain ⟨m, hsound, hused, hname, -, hclass⟩ := (compileScript_survives hfits hdone).1
      (smallScript.classNameOf .body) record (fitsIn_smallScript.names .body) hrecord hthere
    have hscript : m.script = smallScript := hused
    refine ⟨m, hsound, hscript, ?_, hclass⟩
    -- The entry of a body has the name of no preamble.
    cases hphase : m.phase with
    | body => rfl
    | preamble =>
      rw [Made.name, hscript, hphase] at hname
      exact absurd hname smallScript.classNameOf_ne
  · have hused : smallScript ∈ ({smallScript} : Set Script) := rfl
    have hstopped := hstart.compile .steady smallScript 0 hused
      (Job.stops_stoppedAt (small.compileScript .steady smallScript 0).run 5 1 smallWorld)
    have hsession : small.Interrupted ["c"] ["m"] {smallScript}
        { smallWorld with files :=
            ((small.compileScript .steady smallScript 0).run.stoppedAt 5 1 smallWorld).files } :=
      hstopped.session rfl fresh_smallWorld.scopes fresh_smallWorld.now
    exact (compileScript_survives hfits hsession).2 smallScript fitsIn_smallScript
      (fun other ho _ => congrArg Script.source ho) 0 hroot "next"

end Cache

end ScriptPlugins
