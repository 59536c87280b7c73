import ScriptPlugins.Proofs.Cache.Entries
import ScriptPlugins.Proofs.Job.Preserving

/-!
# Writing entries — removing what the cache holds for a name, and putting it there

Each step of this changes one box of one name.  Whatever is done for other names in between, the
boxes are known after every step.
-/

namespace ScriptPlugins

namespace Owning

/-- Removing a directory answers, whether it is there or not. -/
theorem Answers.removeIfThere {o : Owning} {K : Set String} {w : World} {e : Tally} {dir : Path}
    {P Q : World → Prop} (hs : o.Stable K P) (hp : P w) (hq : o.Stable K Q)
    (h : ∀ w, P w → ∃ reply t, w.files.removeDirectory dir = (reply, t) ∧
      (reply = .ok () ∨ reply = .error .notFound) ∧
      FileTree.SameOutside (o.region K) w.files t ∧ Q { w with files := t }) :
    o.Answers K (ScriptPlugins.removeIfThere dir) e w fun _ e' w' => e' = e ∧ Q w' := by
  intro w' hw
  obtain ⟨reply, t, ht, hreply, hk, hq'⟩ := h w' (hs w w' hp hw)
  have hperform : Op.perform (.change (.removeDirectory dir)) w' =
      (reply, { w' with files := t }) := by
    rw [Op.perform, FileTree.apply, ht]
  rw [hperform]
  refine ⟨⟨hk, .refl _ _ _, List.prefix_rfl, id⟩, 0, (add_zero _).symm, ?_⟩
  rw [add_zero]
  rcases hreply with rfl | rfl
  · exact fun w'' hw' => ⟨(), rfl, rfl, hq _ _ hq' hw'⟩
  · exact fun w'' hw' => ⟨(), rfl, rfl, hq _ _ hq' hw'⟩

end Owning

namespace Cache

open Owning

variable {c : Cache} {o : Owning} {C M : Location} {K : Set String} {F : o.Frame K}
  {boxes : String → Boxes} {t : FileTree} {w : World} {e : Tally} {name : String}

/-! ## 1. Changes of a shelf -/

namespace Shelf

theorem removeClasses (h : c.Shelf o C M K boxes t) (hseat : Seat o C M K) (hn : name ∈ K)
    (ht : c.Takes name) : ∃ reply t', t.removeDirectory (c.classesDir name) = (reply, t') ∧
      (reply = .ok () ∨ reply = .error .notFound) ∧ FileTree.SameOutside (o.region K) t t' ∧
      c.Shelf o C M K (Function.update boxes name ⟨none, (boxes name).metadata⟩) t' := by
  obtain ⟨reply, t', hrem, hreply, hsame, hstores⟩ :=
    (h.classes name hn).removeDirectory h.classesRoot ht.isName ht.classesDir
  exact ⟨reply, t', hrem, hreply, hsame.mono (hseat.subtree_classes hn),
    h.setClasses hseat hn hsame hstores⟩

theorem removeMetadata (h : c.Shelf o C M K boxes t) (hseat : Seat o C M K) (hn : name ∈ K)
    (ht : c.Takes name) : ∃ reply t', t.removeDirectory (c.metadataDir name) = (reply, t') ∧
      (reply = .ok () ∨ reply = .error .notFound) ∧ FileTree.SameOutside (o.region K) t t' ∧
      c.Shelf o C M K (Function.update boxes name ⟨(boxes name).classes, none⟩) t' := by
  obtain ⟨reply, t', hrem, hreply, hsame, hstores⟩ :=
    (h.metadata name hn).removeDirectory h.metadataRoot ht.isName ht.metadataDir
  exact ⟨reply, t', hrem, hreply, hsame.mono (hseat.subtree_metadata hn),
    h.setMetadata hseat hn hsame hstores⟩

theorem makeClasses (h : c.Shelf o C M K boxes t) (hseat : Seat o C M K) (hn : name ∈ K)
    (ht : c.Takes name) : ∃ t', t.makeDirectories (c.classesDir name) = (.ok (), t') ∧
      FileTree.SameOutside (o.region K) t t' ∧ c.Shelf o C M K (Function.update boxes name
        ⟨some (boxes name).classes.join, (boxes name).metadata⟩) t' := by
  obtain ⟨t', hmake, hsame, hstores⟩ :=
    (h.classes name hn).makeDirectories h.classesRoot ht.isName ht.classesDir
  exact ⟨t', hmake, hsame.mono (hseat.subtree_classes hn), h.setClasses hseat hn hsame hstores⟩

theorem makeMetadata (h : c.Shelf o C M K boxes t) (hseat : Seat o C M K) (hn : name ∈ K)
    (ht : c.Takes name) : ∃ t', t.makeDirectories (c.metadataDir name) = (.ok (), t') ∧
      FileTree.SameOutside (o.region K) t t' ∧ c.Shelf o C M K (Function.update boxes name
        ⟨(boxes name).classes, some (boxes name).metadata.join⟩) t' := by
  obtain ⟨t', hmake, hsame, hstores⟩ :=
    (h.metadata name hn).makeDirectories h.metadataRoot ht.isName ht.metadataDir
  exact ⟨t', hmake, hsame.mono (hseat.subtree_metadata hn), h.setMetadata hseat hn hsame hstores⟩

/-- A class file can be written where its directory is there. -/
theorem writeClass (h : c.Shelf o C M K boxes t) (hseat : Seat o C M K) (hn : name ∈ K)
    (ht : c.Takes name) {b : Option ByteArray} (hb : (boxes name).classes = some b)
    (bytes : ByteArray) :
    ∃ t', t.writeFile (classFile (c.classesDir name) name) bytes = .ok t' ∧
      FileTree.SameOutside (o.region K) t t' ∧ c.Shelf o C M K (Function.update boxes name
        ⟨some (some bytes), (boxes name).metadata⟩) t' := by
  have hstores := h.classes name hn
  rw [hb] at hstores
  obtain ⟨t', hwrite, hsame, hstores⟩ :=
    hstores.writeFile h.classesRoot ht.isName ht.file ht.classPath bytes
  exact ⟨t', hwrite, hsame.mono (hseat.subtree_classes hn), h.setClasses hseat hn hsame hstores⟩

/-- A metadata file can be written where its directory is there. -/
theorem writeMetadata (h : c.Shelf o C M K boxes t) (hseat : Seat o C M K) (hn : name ∈ K)
    (ht : c.Takes name) {b : Option ByteArray} (hb : (boxes name).metadata = some b)
    (bytes : ByteArray) :
    ∃ t', t.writeFile (metadataFile (c.metadataDir name)) bytes = .ok t' ∧
      FileTree.SameOutside (o.region K) t t' ∧ c.Shelf o C M K (Function.update boxes name
        ⟨(boxes name).classes, some (some bytes)⟩) t' := by
  have hstores := h.metadata name hn
  rw [hb] at hstores
  obtain ⟨t', hwrite, hsame, hstores⟩ :=
    hstores.writeFile h.metadataRoot ht.isName isName_metadata ht.metadataPath bytes
  exact ⟨t', hwrite, hsame.mono (hseat.subtree_metadata hn), h.setMetadata hseat hn hsame hstores⟩

end Shelf

/-! ## 2. What is known of a shelf -/

/-- The boxes of some names are known, something is known of the scopes, and the clock is right. -/
structure Knows (c : Cache) (o : Owning) (C M : Location) {K : Set String} (F : o.Frame K)
    (boxes : String → Boxes) (w : World) : Prop where
  shelf : c.Shelf o C M K boxes w.files
  scopes : F.holds w.scopes
  now : w.now.valid = true

theorem stable_knows (hseat : Seat o C M K) : o.Stable K (c.Knows o C M F boxes) :=
  fun _ _ h hw => ⟨h.shelf.stays hseat hw.files,
    F.stays _ _ h.scopes (hw.scopes.mono Set.inter_subset_left), hw.clock h.now⟩

theorem Knows.log (h : c.Knows o C M F boxes w) (log : List Log.Event) :
    c.Knows o C M F boxes { w with log } := ⟨h.shelf, h.scopes, h.now⟩

/-- Removing an entry leaves nothing of it. -/
theorem answers_remove (hseat : Seat o C M K) (hn : name ∈ K) (ht : c.Takes name)
    (h : c.Knows o C M F boxes w) :
    o.Answers K (c.remove name) e w fun _ e' w' => e' = e ∧
      c.Knows o C M F (Function.update boxes name .none) w' := by
  have hclasses : o.Answers K (removeIfThere (c.classesDir name)) e w fun _ e' w' => e' = e ∧
      c.Knows o C M F (Function.update boxes name ⟨none, (boxes name).metadata⟩) w' := by
    refine Answers.removeIfThere (stable_knows hseat) h (stable_knows hseat) fun w h => ?_
    obtain ⟨reply, t, hrem, hreply, hsame, hset⟩ := h.shelf.removeClasses hseat hn ht
    exact ⟨reply, t, hrem, hreply, hsame, hset, h.scopes, h.now⟩
  rw [remove]
  refine hclasses.bind fun _ e w ⟨he, h⟩ => ?_
  refine (Answers.removeIfThere (stable_knows hseat) h (stable_knows hseat) fun w h => ?_).imp
    fun _ e' w' ⟨he', h'⟩ => ⟨he'.trans he, h'⟩
  obtain ⟨reply, t, hrem, hreply, hsame, hset⟩ := h.shelf.removeMetadata hseat hn ht
  rw [Function.update_self, Function.update_idem] at hset
  exact ⟨reply, t, hrem, hreply, hsame, hset, h.scopes, h.now⟩

/-- A class file is written, whatever stood there. -/
theorem answers_writeClass (hseat : Seat o C M K) (hn : name ∈ K) (ht : c.Takes name)
    (h : c.Knows o C M F boxes w) {compiled : CompiledClass} (hc : compiled.name = name) :
    o.Answers K (writeClass (c.classesDir name) compiled) e w fun _ e' w' => e' = e ∧
      c.Knows o C M F (Function.update boxes name
        ⟨some (some compiled.print.toUTF8), (boxes name).metadata⟩) w' := by
  have hmake : o.Answers K (Attempt.change (ClassFileError.io (classFile (c.classesDir name) name))
      (.makeDirectories (c.classesDir name))) e w fun _ e' w' => e' = e ∧
        c.Knows o C M F (Function.update boxes name
          ⟨some (boxes name).classes.join, (boxes name).metadata⟩) w' := by
    refine Answers.change (stable_knows hseat) h (stable_knows hseat) fun w h => ?_
    obtain ⟨t, hmake, hsame, hset⟩ := h.shelf.makeClasses hseat hn ht
    exact ⟨t, hmake, hsame, hset, h.scopes, h.now⟩
  rw [writeClass, hc]
  refine hmake.bind fun _ e w ⟨he, h⟩ => ?_
  have hwrite : o.Answers K (Attempt.change (ClassFileError.io (classFile (c.classesDir name) name))
      (.writeFile (classFile (c.classesDir name) name) compiled.print.toUTF8)) e w
      fun _ e' w' => e' = e ∧ c.Knows o C M F (Function.update boxes name
        ⟨some (some compiled.print.toUTF8), (boxes name).metadata⟩) w' := by
    refine Answers.change (stable_knows hseat) h (stable_knows hseat) fun w h => ?_
    obtain ⟨t, hwrite, hsame, hset⟩ := h.shelf.writeClass hseat hn ht
      (by rw [Function.update_self]) compiled.print.toUTF8
    rw [Function.update_self, Function.update_idem] at hset
    exact ⟨t, FileTree.apply_writeFile hwrite, hsame, hset, h.scopes, h.now⟩
  refine hwrite.bind fun _ e' w' ⟨he', h'⟩ => ?_
  exact Answers.pure fun w'' hw => ⟨he'.trans he, stable_knows hseat _ _ h' hw⟩

/-- A metadata file is written, whatever stood there. -/
theorem answers_writeMetadata (hseat : Seat o C M K) (hn : name ∈ K) (ht : c.Takes name)
    (h : c.Knows o C M F boxes w) (m : Metadata) :
    o.Answers K (writeMetadata (c.metadataDir name) m) e w fun _ e' w' => e' = e ∧
      c.Knows o C M F (Function.update boxes name
        ⟨(boxes name).classes, some (some m.print.toUTF8)⟩) w' := by
  have hmake : o.Answers K (Attempt.change (LoadError.io (metadataFile (c.metadataDir name)))
      (.makeDirectories (c.metadataDir name))) e w fun _ e' w' => e' = e ∧
        c.Knows o C M F (Function.update boxes name
          ⟨(boxes name).classes, some (boxes name).metadata.join⟩) w' := by
    refine Answers.change (stable_knows hseat) h (stable_knows hseat) fun w h => ?_
    obtain ⟨t, hmake, hsame, hset⟩ := h.shelf.makeMetadata hseat hn ht
    exact ⟨t, hmake, hsame, hset, h.scopes, h.now⟩
  rw [ScriptPlugins.writeMetadata]
  refine hmake.bind fun _ e w ⟨he, h⟩ => ?_
  refine (Answers.change (stable_knows hseat) h (stable_knows hseat) fun w h => ?_).imp
    fun _ e' w' ⟨he', h'⟩ => ⟨he'.trans he, h'⟩
  obtain ⟨t, hwrite, hsame, hset⟩ := h.shelf.writeMetadata hseat hn ht
    (by rw [Function.update_self]) m.print.toUTF8
  rw [Function.update_self, Function.update_idem] at hset
  exact ⟨t, FileTree.apply_writeFile hwrite, hsame, hset, h.scopes, h.now⟩

/-! ## 3. Compiling an entry -/

variable {s : Script} {phase : Phase}

/-- A right source is compiled into its entry, whatever stood there. -/
theorem answers_compile (hseat : Seat o C M K) (hn : s.classNameOf phase ∈ K)
    (ht : c.Takes (s.classNameOf phase)) (h : c.Knows o C M F boxes w) {hook : Hook}
    {source : String} {steps : List Step}
    (hsteps : stepsOf phase hook source = .ok steps) :
    o.Answers K ((c.key s phase).compile hook source) e w fun _ e' w' => e' = e ∧
      ∃ now, now.valid = true ∧ c.Knows o C M F (Function.update boxes (s.classNameOf phase)
        (Made.boxes ⟨s, phase, steps, now⟩)) w' := by
  have hstable : o.Stable K (c.Knows o C M F boxes) := stable_knows hseat
  rw [UnitKey.compile]
  refine (Answers.of (P := fun r e' w' => r = steps ∧ e' = e ∧ c.Knows o C M F boxes w') hsteps
    fun w' hw => ⟨rfl, rfl, hstable _ _ h hw⟩).bind fun r e₁ w ⟨hr, he₁, h⟩ => ?_
  subst hr he₁
  refine (Answers.observe hstable h).bind fun seen e₁ w ⟨hseen, he₁, h⟩ => ?_
  subst he₁
  have hclass := answers_writeClass (e := e₁) hseat hn ht h
    (show ((c.key s phase).classOf r).name = s.classNameOf phase from rfl)
  refine hclass.adapt.discard.bind fun _ e₁ w ⟨he₁, h⟩ => ?_
  subst he₁
  have hmetadata := answers_writeMetadata (e := e₁) hseat hn ht h
    ((c.key s phase).metadataOf r seen.now)
  refine hmetadata.adapt.bind fun _ e₁ w ⟨he₁, h⟩ => ?_
  subst he₁
  rw [Function.update_self, Function.update_idem] at h
  exact (Answers.report (stable_knows hseat) h (fun _ _ h => h.log _) _).imp
    fun _ e' w' ⟨he', h'⟩ => ⟨he', seen.now, hseen.now, h'⟩

end Cache

end ScriptPlugins
