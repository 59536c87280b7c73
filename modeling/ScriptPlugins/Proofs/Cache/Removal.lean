import ScriptPlugins.Proofs.Build.Sited

/-!
# Removals — what goes when the entry of a name is removed

A removal takes what lies where its path leads, and nothing else.  The directories of an entry are
those that its name is joined to.  A name that is one component of a path keeps them in the roots of
the cache; any other string has its directories elsewhere, and the empty one has the roots
themselves.
-/

namespace ScriptPlugins

open FileTree

/-! ## 1. Trees that shrink -/

namespace FileTree

variable {S S' : Set Location} {t t' t'' : FileTree} {p : Path} {l : Location}
  {reply : Except FileError Unit}

/-- A tree from which some of what stands in a region may be gone. -/
structure Shrunk (S : Set Location) (t t' : FileTree) : Prop where
  others : SameOutside S t t'
  kept_or_gone : ∀ m, t'.entry? m = t.entry? m ∨ t'.entry? m = none

namespace Shrunk

theorem refl (S : Set Location) (t : FileTree) : Shrunk S t t := ⟨.refl S t, fun _ => .inl rfl⟩

theorem trans (h : Shrunk S t t') (h' : Shrunk S t' t'') : Shrunk S t t'' := by
  refine ⟨h.others.trans h'.others, fun m => ?_⟩
  rcases h'.kept_or_gone m with he | hnone
  · rw [he]
    exact h.kept_or_gone m
  · exact .inr hnone

theorem mono (h : Shrunk S t t') (hs : S ⊆ S') : Shrunk S' t t' :=
  ⟨h.others.mono hs, h.kept_or_gone⟩

theorem of_entry? (h : Shrunk S t t') {m : Location} {e : Entry} (hm : t'.entry? m = some e) :
    t.entry? m = some e := by
  rcases h.kept_or_gone m with he | hnone
  · rw [← he, hm]
  · rw [hm] at hnone
    cases hnone

/-- What can still be found could be found before. -/
theorem of_isThere (h : Shrunk S t t') (hp : t'.isThere p = true) : t.isThere p = true := by
  obtain ⟨e, hlook⟩ := exists_ok hp
  obtain ⟨l, hl, hentry⟩ := bind_eq_ok hlook
  obtain ⟨hplace, hslash⟩ := locate_eq_ok.mp hl
  have hplace' : t.place p = .ok l := place_mono hplace h.others.here.symm fun _ _ => h.of_entry?
  have hlocate : t.locate p = .ok l := locate_eq_ok.mpr ⟨hplace', fun hs => h.of_entry? (hslash hs)⟩
  split at hentry
  next e' he' => exact isThere_of_look (look_of_locate hlocate (h.of_entry? he'))
  next => cases hentry

end Shrunk

theorem Cleared.shrunk (h : Cleared l t t') : Shrunk (subtree l) t t' := ⟨h.others, h.kept_or_gone⟩

/-- A removal takes only what is at or below where its path leads. -/
theorem shrunk_removeDirectory (h : t.removeDirectory p = (reply, t')) :
    Shrunk (subtree (leads t.here p.steps)) t t' := by
  rcases removeDirectory_cases t p with ⟨e, hrefused, -⟩ | ⟨l, reply', t₁, hl, hcleared, hremoved⟩
  · obtain ⟨-, rfl⟩ := Prod.mk.inj (h.symm.trans hrefused)
    exact .refl _ _
  · obtain ⟨-, rfl⟩ := Prod.mk.inj (h.symm.trans hremoved)
    rw [← leads_of_place (locate_eq_ok.mp hl).1]
    exact hcleared.shrunk

theorem not_isThere_of_missing (h : ∀ l, t.locate p = .ok l → t.entry? l = none) :
    t.isThere p = false := by
  cases hl : t.locate p with
  | error e => exact not_isThere_of_look (look_nowhere hl)
  | ok l => exact not_isThere_of_look (look_missing hl (h l hl))

/-- What was removed, or not found, is not there any more.  Only the root of all files stays. -/
theorem not_isThere_of_removeDirectory (h : t.removeDirectory p = (reply, t'))
    (hreply : reply = .ok () ∨ reply = .error .notFound) (hroot : leads t.here p.steps ≠ []) :
    t'.isThere p = false := by
  rw [removeDirectory] at h
  cases hl : t.locate p with
  | error e =>
    rw [hl] at h
    obtain ⟨-, rfl⟩ := Prod.mk.inj h
    exact not_isThere_of_look (look_nowhere hl)
  | ok l =>
    rw [hl] at h
    simp only at h
    cases henter : t.enter l with
    | error e =>
      rw [henter] at h
      obtain ⟨rfl, rfl⟩ := Prod.mk.inj h
      obtain rfl : e = .notFound := Except.error.inj (hreply.resolve_left (by simp))
      rw [enter] at henter
      split at henter
      · cases henter
      · cases henter
      next hnone => exact not_isThere_of_look (look_missing hl hnone)
    | ok u =>
      rw [henter] at h
      simp only at h
      split at h
      next hplace =>
        -- The path led through what is gone, so now it leads nowhere.
        obtain ⟨-, rfl⟩ := Prod.mk.inj h
        refine not_isThere_of_missing fun k hk => ?_
        rw [(locate_eq_ok.mp hk).1] at hplace
        cases hplace
      next e hne hplace =>
        obtain ⟨rfl, rfl⟩ := Prod.mk.inj h
        exact absurd (hreply.resolve_left (by simp)) fun he => hne (Except.error.inj he)
      next k hplace =>
        have hk : k = leads t.here p.steps := leads_of_place (t := t.eraseBelow l) hplace
        split at h
        · obtain ⟨rfl, -⟩ := Prod.mk.inj h
          rcases hreply with hr | hr <;> cases hr
        · obtain ⟨rfl, -⟩ := Prod.mk.inj h
          rcases hreply with hr | hr <;> cases hr
        · obtain ⟨-, rfl⟩ := Prod.mk.inj h
          refine not_isThere_of_missing fun m hm => ?_
          obtain rfl : m = k :=
            (leads_of_place (t := (t.eraseBelow l).erase k) (locate_eq_ok.mp hm).1).trans hk.symm
          rw [entry?_erase _ (hk ▸ hroot), if_pos rfl]

end FileTree

/-! ## 2. Directories of a name -/

namespace Cache

/-- Where the directories of a name lie, and all that stands below them. -/
def reach (c : Cache) (here : Location) (name : String) : Set Location :=
  subtree (leads here (c.classesDir name).steps) ∪ subtree (leads here (c.metadataDir name).steps)

variable {c : Cache} {here : Location} {name : String}

/-- A name that is a component of a path has its directories in the roots. -/
theorem reach_part (h : IsPart name) : c.reach here name =
    subtree (leads here c.classesRoot.steps ++ [name]) ∪
      subtree (leads here c.metadataRoot.steps ++ [name]) := by
  unfold reach classesDir metadataDir
  rw [Path.steps_join_part h, Path.steps_join_part h, leads_append, leads_append]
  rfl

/-- The directories of the empty name are the roots. -/
theorem reach_empty : c.reach here "" =
    subtree (leads here c.classesRoot.steps) ∪ subtree (leads here c.metadataRoot.steps) := by
  unfold reach classesDir metadataDir
  rw [Path.steps_join_empty, Path.steps_join_empty]

/-- The directories of a name that begins with a slash are where it leads from the root of all
files. -/
theorem reach_rooted (h : name.toList.head? = some '/') :
    c.reach here name = subtree (leads here (Path.mk name).steps) := by
  unfold reach classesDir metadataDir
  rw [Path.join_rooted h, Path.join_rooted h, Set.union_self]

/-- Removing an entry takes nothing but what the directories of its name are made of, and all of
that if nothing is refused. -/
theorem run_remove (c : Cache) (name : String) (w : World) :
    ∃ answer files, Job.run (c.remove name).run w = (answer, { w with files }) ∧
      Shrunk (c.reach w.files.here name) w.files files ∧
      (answer = .ok () → ∀ dir ∈ [c.classesDir name, c.metadataDir name],
        leads w.files.here dir.steps ≠ [] → files.isThere dir = false) := by
  obtain ⟨reply₁, answer₁, t₁, ht₁, hrun₁, hanswer₁⟩ :=
    run_removeIfThere_cases (c.classesDir name) w
  obtain ⟨reply₂, answer₂, t₂, ht₂, hrun₂, hanswer₂⟩ :=
    run_removeIfThere_cases (c.metadataDir name) { w with files := t₁ }
  have hfirst := shrunk_removeDirectory ht₁
  have hsecond := shrunk_removeDirectory ht₂
  rw [show FileTree.here t₁ = w.files.here from hfirst.others.here] at hsecond
  have hwhole : Shrunk (c.reach w.files.here name) w.files t₂ :=
    (hfirst.mono Set.subset_union_left).trans (hsecond.mono Set.subset_union_right)
  cases answer₁ with
  | error e =>
    exact ⟨.error e, t₁, Attempt.run_bind_error hrun₁, hfirst.mono Set.subset_union_left, nofun⟩
  | ok u =>
    refine ⟨answer₂, t₂, (Attempt.run_bind_ok hrun₁).trans hrun₂, hwhole,
      fun hok dir hdir hroot => ?_⟩
    rcases List.mem_cons.mp hdir with rfl | hdir
    · -- What the first removal took does not come back with the second.
      have hgone := not_isThere_of_removeDirectory ht₁ (hanswer₁ rfl) hroot
      exact Bool.eq_false_iff.mpr fun hthere =>
        Bool.eq_false_iff.mp hgone (hsecond.of_isThere hthere)
    · obtain rfl := List.mem_singleton.mp hdir
      refine not_isThere_of_removeDirectory ht₂ (hanswer₂ hok) ?_
      rwa [show FileTree.here t₁ = w.files.here from hfirst.others.here]

end Cache

/-! ## 3. Other entries -/

namespace BuildLayout

variable {b : BuildLayout} {l : Location}

/-- Where the classes of the cache are, seen from a location. -/
def classesAt (b : BuildLayout) (l : Location) : Location := leads l b.cachedClasses.steps

/-- Where the metadata of the cache is, seen from a location. -/
def metadataAt (b : BuildLayout) (l : Location) : Location := leads l b.cachedMetadata.steps

theorem classesAt_eq (b : BuildLayout) (l : Location) :
    b.classesAt l = leads l b.root.steps ++ classesNames := by
  have hn : ∀ s ∈ classesNames, IsName s := by decide
  have hsteps : b.cachedClasses.steps = b.root.steps ++ classesNames.map .name :=
    Path.steps_down (fun s hs => (hn s hs).part) b.root
  rw [classesAt, hsteps, leads_append, leads_names]

theorem metadataAt_eq (b : BuildLayout) (l : Location) :
    b.metadataAt l = leads l b.root.steps ++ metadataNames := by
  have hn : ∀ s ∈ metadataNames, IsName s := by decide
  have hsteps : b.cachedMetadata.steps = b.root.steps ++ metadataNames.map .name :=
    Path.steps_down (fun s hs => (hn s hs).part) b.root
  rw [metadataAt, hsteps, leads_append, leads_names]

/-- Neither root of the cache is in the other one. -/
theorem roots_apart (b : BuildLayout) (l : Location) :
    ¬b.classesAt l <+: b.metadataAt l ∧ ¬b.metadataAt l <+: b.classesAt l := by
  rw [classesAt_eq, metadataAt_eq]
  exact ⟨not_prefix_at (by decide) _, not_prefix_at (by decide) _⟩

/-- What is not below the directories of a name that is a component. -/
theorem not_mem_reach {name : String} (h : IsPart name) {m : Location}
    (hclasses : ¬b.classesAt l ++ [name] <+: m) (hmetadata : ¬b.metadataAt l ++ [name] <+: m) :
    m ∉ b.cache.reach l name := by
  rw [Cache.reach_part h]
  exact fun hm => hm.elim hclasses hmetadata

/-- Entries of two names have nothing in common. -/
theorem not_mem_reach_of_ne {name other : String} (h : IsPart name) (hne : other ≠ name)
    {m : Location}
    (hm : m ∈ subtree (b.classesAt l ++ [other]) ∪ subtree (b.metadataAt l ++ [other])) :
    m ∉ b.cache.reach l name := by
  obtain ⟨hcm, hmc⟩ := b.roots_apart l
  have hsame (k r : Location) : ¬k ++ [name] <+: k ++ [other] ++ r := by
    rw [List.append_assoc, List.prefix_append_right_inj]
    exact fun hp => hne (List.cons_prefix_cons.mp hp).1.symm
  have hapart {k k' : Location} (hkk' : ¬k <+: k') (hk'k : ¬k' <+: k) (r : Location) :
      ¬k ++ [name] <+: k' ++ [other] ++ r := by
    rw [List.append_assoc]
    exact fun hp => not_prefix_append hkk' hk'k _ ((List.prefix_append k [name]).trans hp)
  rcases hm with ⟨r, rfl⟩ | ⟨r, rfl⟩
  · exact not_mem_reach h (hsame _ r) (hapart hmc hcm r)
  · exact not_mem_reach h (hapart hcm hmc r) (hsame _ r)

/-- **Removing an entry touches nothing else, if its name is one component of a path.**  Whatever
the files are and whatever name is given, a removal only takes what is at or below the two
directories that the name is joined to, and if it is not refused these are gone.  For a name without
slashes that is neither empty nor `.` or `..` they lie in the roots, so that both roots, the entries
of all other names and everything outside stay as they are.  The directories of the empty name are
the roots, and a name that begins with a slash leads anywhere. -/
theorem remove_spares (b : BuildLayout) (name : String) (w : World) :
    let C := b.classesAt w.files.here
    let M := b.metadataAt w.files.here
    ∃ answer files, Job.run (b.cache.remove name).run w = (answer, { w with files }) ∧
      (∀ m, m ∉ b.cache.reach w.files.here name → files.entry? m = w.files.entry? m) ∧
      (∀ m, files.entry? m = w.files.entry? m ∨ files.entry? m = none) ∧
      (answer = .ok () → ∀ dir ∈ [b.cache.classesDir name, b.cache.metadataDir name],
        leads w.files.here dir.steps ≠ [] → files.isThere dir = false) ∧
      (IsPart name →
        files.entry? C = w.files.entry? C ∧ files.entry? M = w.files.entry? M ∧
        (∀ other, other ≠ name → ∀ m ∈ subtree (C ++ [other]) ∪ subtree (M ++ [other]),
          files.entry? m = w.files.entry? m) ∧
        ∀ m, m ∉ subtree C ∪ subtree M → files.entry? m = w.files.entry? m) ∧
      (name = "" → b.cache.reach w.files.here name = subtree C ∪ subtree M) ∧
      (name.toList.head? = some '/' →
        b.cache.reach w.files.here name = subtree (leads w.files.here (Path.mk name).steps)) := by
  intro C M
  obtain ⟨answer, files, hrun, hshrunk, hgone⟩ := b.cache.run_remove name w
  obtain ⟨hcm, hmc⟩ := b.roots_apart w.files.here
  have hothers : ∀ m, m ∉ b.cache.reach w.files.here name → files.entry? m = w.files.entry? m :=
    hshrunk.others.entries
  -- A root is shorter than what is joined to it.
  have hself (k : Location) : ¬k ++ [name] <+: k := fun hp => by
    have hlength := hp.length_le
    rw [List.length_append, List.length_singleton] at hlength
    omega
  refine ⟨answer, files, hrun, hothers, hshrunk.kept_or_gone, hgone,
    fun hpart => ⟨?_, ?_, ?_, ?_⟩, ?_, Cache.reach_rooted⟩
  · exact hothers C (not_mem_reach hpart (hself C) fun hp =>
      hmc ((List.prefix_append M [name]).trans hp))
  · exact hothers M
      (not_mem_reach hpart (fun hp => hcm ((List.prefix_append C [name]).trans hp)) (hself M))
  · exact fun other hne m hm => hothers m (not_mem_reach_of_ne hpart hne hm)
  · intro m hm
    refine hothers m (not_mem_reach hpart (fun hp => hm (.inl ?_)) fun hp => hm (.inr ?_))
    · exact (List.prefix_append C [name]).trans hp
    · exact (List.prefix_append M [name]).trans hp
  · rintro rfl
    exact Cache.reach_empty

end BuildLayout

end ScriptPlugins
