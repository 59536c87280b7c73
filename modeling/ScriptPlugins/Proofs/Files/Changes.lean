import ScriptPlugins.Job.Basic
import ScriptPlugins.Proofs.Cache.Boxes
import ScriptPlugins.Proofs.Files.Leading

/-!
# Changes — what a change of the files can do to any tree

No change spoils a tree: each entry has a name and lies in a directory.  Making directories adds
directories that are on the way of their path, a file goes where its path leads, and what is removed
is below where its path leads.
-/

namespace ScriptPlugins.FileTree

variable {S : Set Location} {t t' t'' : FileTree} {p : Path} {l m : Location} {ps : List Path}
  {bytes : ByteArray}

/-! ## 1. Proper trees -/

/-- A tree whose entries have names, and lie in directories. -/
structure Proper (t : FileTree) : Prop where
  names : ∀ l, t.entry? l ≠ none → ∀ s ∈ l, IsName s
  parents : ∀ l s, t.entry? (l ++ [s]) ≠ none → t.entry? l = some .directory

namespace Proper

/-- Whatever holds something is a directory. -/
theorem directory (h : t.Proper) {r : Location} (hne : r ≠ []) (hr : t.entry? (l ++ r) ≠ none) :
    t.entry? l = some .directory := by
  induction r using List.reverseRecOn with
  | nil => exact absurd rfl hne
  | append_singleton r s ih =>
    rw [← List.append_assoc] at hr
    have hparent := h.parents _ s hr
    by_cases he : r = []
    · rwa [he, List.append_nil] at hparent
    · exact ih he (by simp [hparent])

/-- There is nothing below what is missing. -/
theorem missing (h : t.Proper) (hl : t.entry? l = none) (hm : m ∈ inside l) :
    t.entry? m = none := by
  obtain ⟨s, r, rfl⟩ := exists_of_mem_inside hm
  by_contra hr
  rw [h.directory (List.cons_ne_nil s r) hr] at hl
  cases hl

theorem put (h : t.Proper) {k : Location} {s : String} (hs : IsName s)
    (hk : t.entry? k = some .directory) (hne : t.entry? (k ++ [s]) ≠ some .directory) (e : Entry) :
    (t.put (k ++ [s]) e).Proper := by
  have hnil : k ++ [s] ≠ [] := by simp
  constructor
  · intro l hl
    by_cases he : l = k ++ [s]
    · intro s' hs'
      rw [he] at hs'
      rcases List.mem_append.mp hs' with hs' | hs'
      · exact h.names k (by simp [hk]) s' hs'
      · exact List.mem_singleton.mp hs' ▸ hs
    · rw [entry?_put_of_ne t hnil e he] at hl
      exact h.names l hl
  · intro l s' hl
    have hdirectory : t.entry? l = some .directory := by
      by_cases he : l ++ [s'] = k ++ [s]
      · exact (List.append_inj' he rfl).1 ▸ hk
      · rw [entry?_put_of_ne t hnil e he] at hl
        exact h.parents l s' hl
    rw [entry?_put_of_ne t hnil e fun he => hne (he ▸ hdirectory), hdirectory]

/-- The empty tree is proper. -/
theorem empty : (FileTree.empty []).Proper := by
  refine ⟨fun m hm s hs => ?_, fun m s hm => ?_⟩
  · rw [entry?_empty] at hm
    split at hm
    next he => rw [he] at hs; cases hs
    next => exact absurd rfl hm
  · rw [entry?_empty, if_neg (by simp)] at hm
    exact absurd rfl hm

/-- Where something is missing, or is a file, a path leads by a name out of a directory. -/
theorem exists_name (h : t.Proper) (hp : t.place p = .ok l) (hl : t.entry? l ≠ some .directory) :
    ∃ k s, l = k ++ [s] ∧ IsName s ∧ t.entry? k = some .directory := by
  obtain ⟨hfits, hwalk⟩ := place_eq_ok.mp hp
  obtain ⟨hl', hway, hsizes⟩ := walk_eq_ok.mp hwalk
  obtain ⟨cs, c, hcs⟩ :=
    (List.eq_nil_or_concat p.steps).resolve_left (Path.steps_ne_nil hfits.text_ne)
  rw [List.concat_eq_append] at hcs
  have hk : t.entry? (leads t.here cs) = some .directory :=
    hway cs (hcs ▸ List.prefix_append cs [c]) (by simp [hcs])
  rw [hcs, leads_append, leads_cons, leads_nil] at hl'
  have hmem : c ∈ p.steps := by simp [hcs]
  -- Any other component than a name leads to a directory.
  cases c with
  | root => exact absurd (congrArg t.entry? hl') (by simpa [Component.next] using hl)
  | here => exact absurd (hl' ▸ hk) hl
  | up =>
    rcases List.eq_nil_or_concat (leads t.here cs) with he | ⟨k, s, he⟩
    · rw [he] at hl'
      exact absurd (congrArg t.entry? hl') (by simpa [Component.next] using hl)
    · rw [List.concat_eq_append] at he
      rw [he] at hl' hk
      rw [Component.next, List.dropLast_concat] at hl'
      exact absurd (hl' ▸ h.parents k s (by simp [hk])) hl
  | name s =>
    obtain ⟨hne, hslash, hhere, hup⟩ := Path.isPart_of_mem_steps hmem
    exact ⟨_, s, hl', ⟨hne, hslash, hhere, hup, hsizes s hmem⟩, hk⟩

end Proper

/-- A path still leads to its place in a tree that has kept the directories on its way. -/
theorem place_mono (h : t.place p = .ok l) (hhere : t'.here = t.here)
    (hkeeps : ∀ m ∈ onWay t.here p.steps, t.entry? m = some .directory →
      t'.entry? m = some .directory) :
    t'.place p = .ok l := by
  obtain ⟨hfits, hwalk⟩ := place_eq_ok.mp h
  exact place_eq_ok.mpr ⟨hfits, hhere ▸ walk_mono hwalk hkeeps⟩

/-! ## 2. Making directories -/

/-- A tree to which directories were added, at some locations where there was nothing. -/
structure Grown (S : Set Location) (t t' : FileTree) : Prop where
  here : t'.here = t.here
  entries : ∀ m, t'.entry? m = t.entry? m ∨
    m ∈ S ∧ t.entry? m = none ∧ t'.entry? m = some .directory

namespace Grown

theorem refl (S : Set Location) (t : FileTree) : Grown S t t := ⟨rfl, fun _ => .inl rfl⟩

theorem trans (h : Grown S t t') (h' : Grown S t' t'') : Grown S t t'' := by
  refine ⟨h'.here.trans h.here, fun m => ?_⟩
  rcases h'.entries m with he' | ⟨hm, hnone, hmade⟩
  · rw [he']
    exact h.entries m
  · rcases h.entries m with he | ⟨-, -, hmade'⟩
    · exact .inr ⟨hm, he ▸ hnone, hmade⟩
    · rw [hmade'] at hnone
      cases hnone

theorem sameOutside (h : Grown S t t') : SameOutside S t t' :=
  ⟨h.here, fun m hm => (h.entries m).resolve_right fun hin => hm hin.1⟩

theorem kept (h : Grown S t t') {e : Entry} (hm : t.entry? m = some e) : t'.entry? m = some e := by
  rcases h.entries m with he | ⟨-, hnone, -⟩
  · rw [he, hm]
  · rw [hm] at hnone
    cases hnone

end Grown

theorem makeDirectory_eq_ok : t.makeDirectory p = .ok t' ↔
    ∃ l, t.place p = .ok l ∧ t.entry? l = none ∧ t' = t.put l .directory := by
  constructor
  · intro h
    cases hl : t.place p with
    | error e => rw [makeDirectory_nowhere hl] at h; cases h
    | ok l =>
      cases he : t.entry? l with
      | some e => rw [makeDirectory_there hl he] at h; cases h
      | none =>
        rw [makeDirectory_missing hl he] at h
        exact ⟨l, rfl, he, (Except.ok.inj h).symm⟩
  · rintro ⟨l, hl, he, rfl⟩
    exact makeDirectory_missing hl he

theorem ne_nil_of_missing (h : t.entry? l = none) : l ≠ [] := by
  rintro rfl
  cases h

theorem grown_makeDirectory (h : t.makeDirectory p = .ok t') :
    Grown (onWay t.here p.steps) t t' := by
  obtain ⟨l, hl, hnone, rfl⟩ := makeDirectory_eq_ok.mp h
  refine ⟨rfl, fun m => ?_⟩
  by_cases hm : m = l
  · subst hm
    exact .inr ⟨leads_of_place hl ▸ leads_mem_onWay .., hnone,
      entry?_put_self t (ne_nil_of_missing hnone) _⟩
  · exact .inl (entry?_put_of_ne t (ne_nil_of_missing hnone) _ hm)

theorem Proper.makeDirectory (h : t.Proper) (hmade : t.makeDirectory p = .ok t') : t'.Proper := by
  obtain ⟨l, hl, hnone, rfl⟩ := makeDirectory_eq_ok.mp hmade
  have hne : t.entry? l ≠ some .directory := by simp [hnone]
  obtain ⟨k, s, rfl, hs, hk⟩ := h.exists_name hl hne
  exact h.put hs hk hne .directory

/-- What making each of some directories keeps, making the first one of them keeps. -/
theorem makeFirst_induction {P : FileTree → Prop}
    (hstep : ∀ q ∈ ps, ∀ t t', P t → t.makeDirectory q = .ok t' → P t') (h : P t) :
    P (makeFirst ps t).2 := by
  induction ps generalizing t with
  | nil => exact h
  | cons p above ih =>
    have hlast (t : FileTree) (ht : P t) (e : FileError) :
        P (if t.isDirectory p then (.ok (), t) else (.error e, t) :
          Except FileError Unit × FileTree).2 := by
      split <;> exact ht
    have hp : p ∈ p :: above := List.mem_cons_self
    -- This directory may be made at once, or after the ones above it, which stay even if it is
    -- refused.
    rw [makeFirst]
    split
    · exact h
    · simp only
      split
      next t' ht' => exact hstep p hp t t' h ht'
      · have habove := ih (fun q hq => hstep q (List.mem_cons_of_mem p hq)) h
        split
        next t₁ ht₁ =>
          rw [ht₁] at habove
          split
          next t' ht' => exact hstep p hp t₁ t' habove ht'
          · exact hlast t₁ habove _
        · exact habove
      · exact hlast t h _

theorem grown_makeDirectories (t : FileTree) (p : Path) :
    Grown (onWay t.here p.steps) t (t.makeDirectories p).2 := by
  refine makeFirst_induction (P := Grown (onWay t.here p.steps) t) (fun q hq t₁ t₂ h₁ h₂ =>
    ?_) (.refl _ t)
  have hgrown := grown_makeDirectory h₂
  rw [h₁.here] at hgrown
  refine h₁.trans ⟨hgrown.here.trans rfl, fun m => ?_⟩
  exact (hgrown.entries m).imp_right fun h => ⟨onWay_mono (Path.steps_ancestors hq) h.1, h.2⟩

theorem Proper.makeDirectories (h : t.Proper) (p : Path) : (t.makeDirectories p).2.Proper :=
  makeFirst_induction (fun _ _ _ _ ht => ht.makeDirectory) h

/-- Making a directory and those above it ends with this one: it is made, or it is there. -/
theorem of_makeFirst_cons (hp : p.text ≠ "") (h : makeFirst (p :: ps) t = (.ok (), t')) :
    (∃ t₁ : FileTree, t₁.makeDirectory p = .ok t') ∨ t'.isDirectory p = true := by
  have hthere {t₁ : FileTree} {e : FileError}
      (h : (if t₁.isDirectory p then (.ok (), t₁) else (.error e, t₁) :
        Except FileError Unit × FileTree) = (.ok (), t')) : t'.isDirectory p = true := by
    split at h
    next hd => exact (Prod.mk.inj h).2 ▸ hd
    next => cases h
  rw [makeFirst, if_neg hp] at h
  simp only at h
  split at h
  next t₁ ht₁ => exact .inl ⟨t, (Prod.mk.inj h).2 ▸ ht₁⟩
  · split at h
    next t₁ ht₁ =>
      split at h
      next t₂ ht₂ => exact .inl ⟨t₁, (Prod.mk.inj h).2 ▸ ht₂⟩
      · exact .inr (hthere h)
    next hrefused => exact absurd h (hrefused t')
  · exact .inr (hthere h)

theorem place_of_makeDirectory (h : t.makeDirectory p = .ok t') :
    ∃ l, t'.place p = .ok l ∧ t'.entry? l = some .directory := by
  have hgrown := grown_makeDirectory h
  obtain ⟨l, hl, hnone, rfl⟩ := makeDirectory_eq_ok.mp h
  exact ⟨l, place_mono hl rfl fun _ _ => hgrown.kept, entry?_put_self t (ne_nil_of_missing hnone) _⟩

theorem place_of_isDirectory (h : t.isDirectory p = true) :
    ∃ l, t.place p = .ok l ∧ t.entry? l = some .directory := by
  rw [isDirectory] at h
  split at h
  next hlook =>
    obtain ⟨l, hl, hentry⟩ := bind_eq_ok hlook
    refine ⟨l, (locate_eq_ok.mp hl).1, ?_⟩
    split at hentry
    next e he => rw [he, Except.ok.inj hentry]
    next => cases hentry
  next => cases h

/-- A directory that was made is there. -/
theorem place_of_makeDirectories (hp : p.text ≠ "") (h : t.makeDirectories p = (.ok (), t')) :
    ∃ l, t'.place p = .ok l ∧ t'.entry? l = some .directory := by
  obtain ⟨above, habove⟩ := ancestors_go p.text.length p
  rw [FileTree.makeDirectories, Path.ancestors, habove] at h
  rcases of_makeFirst_cons hp h with ⟨t₁, ht₁⟩ | hd
  · exact place_of_makeDirectory ht₁
  · exact place_of_isDirectory hd

/-! ## 3. Writing files -/

theorem writeFile_eq_ok : t.writeFile p bytes = .ok t' ↔ p.endsInSlash = false ∧
    ∃ l, t.place p = .ok l ∧ t.entry? l ≠ some .directory ∧ t' = t.put l (.file bytes) := by
  constructor
  · intro h
    cases hslash : p.endsInSlash with
    | true =>
      rw [writeFile, hslash, if_pos rfl] at h
      simp only [bind, Except.bind] at h
      split at h
      · cases h
      · split at h
        · cases h
        · split at h <;> cases h
    | false =>
      cases hl : t.place p with
      | error e =>
        rw [writeFile, hslash, if_neg (by simp), hl] at h
        cases h
      | ok l =>
        refine ⟨rfl, l, rfl, fun hd => ?_, ?_⟩
        · rw [writeFile, hslash, if_neg (by simp), hl] at h
          simp [bind, Except.bind, hd] at h
        · by_cases hd : t.entry? l = some .directory
          · rw [writeFile, hslash, if_neg (by simp), hl] at h
            simp [bind, Except.bind, hd] at h
          · rw [writeFile_of_place hslash hl hd] at h
            exact (Except.ok.inj h).symm
  · rintro ⟨hslash, l, hl, hd, rfl⟩
    exact writeFile_of_place hslash hl hd bytes

/-- What was written is there: the way to a file leads through directories, so it does not lead
through the file. -/
theorem look_of_writeFile (h : t.writeFile p bytes = .ok t') : t'.look p = .ok (.file bytes) := by
  obtain ⟨hslash, l, hl, hne, rfl⟩ := writeFile_eq_ok.mp h
  have hroot : l ≠ [] := by
    rintro rfl
    exact hne rfl
  have hplace : (t.put l (.file bytes)).place p = .ok l := by
    refine place_mono hl rfl fun m _ hm => ?_
    rwa [entry?_put_of_ne t hroot _ fun he => hne (he ▸ hm)]
  have hlocate : (t.put l (.file bytes)).locate p = .ok l :=
    locate_eq_ok.mpr ⟨hplace, fun he => by rw [hslash] at he; cases he⟩
  exact look_of_locate hlocate (entry?_put_self t hroot _)

theorem Proper.writeFile (h : t.Proper) (hw : t.writeFile p bytes = .ok t') : t'.Proper := by
  obtain ⟨-, l, hl, hne, rfl⟩ := writeFile_eq_ok.mp hw
  obtain ⟨k, s, rfl, hs, hk⟩ := h.exists_name hl hne
  exact h.put hs hk hne _

theorem writeFile_of_replaceFile (h : t.replaceFile p bytes = .ok t') :
    t.writeFile p bytes = .ok t' := by
  rw [replaceFile] at h
  split at h
  · cases h
  · exact h

/-! ## 4. Removing directories -/

/-- A tree without what is below a location, perhaps without the directory there too. -/
structure Cleared (l : Location) (t t' : FileTree) : Prop where
  others : SameOutside (subtree l) t t'
  gone : ∀ m ∈ inside l, t'.entry? m = none
  top : t'.entry? l = t.entry? l ∨ t'.entry? l = none

theorem cleared_eraseBelow (t : FileTree) (l : Location) : Cleared l t (t.eraseBelow l) := by
  refine ⟨⟨rfl, fun m hm => ?_⟩, fun m hm => ?_, .inl ?_⟩
  · rw [entry?_eraseBelow, if_neg fun h => hm h.1]
  · exact (entry?_eraseBelow t l m).trans (if_pos hm)
  · rw [entry?_eraseBelow, if_neg fun h => h.2 rfl]

theorem Cleared.erase (h : Cleared l t t') : Cleared l t (t'.erase l) := by
  by_cases hl : l = []
  · -- The root itself is no entry.
    subst hl
    have hsame (m : Location) : FileTree.entry? (t'.erase []) m = t'.entry? m := by
      by_cases hm : m = []
      · rw [hm, entry?_nil, entry?_nil]
      · rw [entry?_of_ne_nil _ hm, entry?_of_ne_nil _ hm, FileTree.erase,
          Std.ExtTreeMap.getElem?_erase, if_neg fun he => hm ((compare_eq_iff_eq_comm [] m).mp he)]
    exact ⟨⟨h.others.here, fun m hm => (hsame m).trans (h.others.entries m hm)⟩,
      fun m hm => (hsame m).trans (h.gone m hm), by rw [hsame]; exact h.top⟩
  · refine ⟨⟨h.others.here, fun m hm => ?_⟩, fun m hm => ?_, .inr ?_⟩
    · have hne : m ≠ l := fun he => hm (he ▸ List.prefix_refl m)
      rw [entry?_erase _ hl, if_neg hne]
      exact h.others.entries m hm
    · rw [entry?_erase _ hl, if_neg hm.2.symm]
      exact h.gone m hm
    · rw [entry?_erase _ hl, if_pos rfl]

theorem Cleared.kept_or_gone (h : Cleared l t t') (m : Location) :
    t'.entry? m = t.entry? m ∨ t'.entry? m = none := by
  by_cases hm : m ∈ subtree l
  · by_cases he : l = m
    · exact he ▸ h.top
    · exact .inr (h.gone m ⟨hm, he⟩)
  · exact .inl (h.others.entries m hm)

theorem Proper.cleared (h : t.Proper) (hc : Cleared l t t') : t'.Proper := by
  have hsome {m : Location} (hm : t'.entry? m ≠ none) : t.entry? m ≠ none := by
    rwa [← (hc.kept_or_gone m).resolve_right hm]
  refine ⟨fun m hm => h.names m (hsome hm), fun m s hm => ?_⟩
  have hdirectory := h.parents m s (hsome hm)
  rcases hc.kept_or_gone m with he | hnone
  · rw [he, hdirectory]
  · -- What is gone lies below the location or is there, so what is in it has gone too.
    have hsub : m ∈ subtree l := by
      by_contra hsub
      rw [hc.others.entries m hsub, hdirectory] at hnone
      cases hnone
    refine absurd (hc.gone (m ++ [s]) ⟨hsub.trans (List.prefix_append m [s]), fun he => ?_⟩) hm
    have hlen := List.IsPrefix.length_le hsub
    rw [he, List.length_append, List.length_singleton] at hlen
    omega

/-- What is removed lies where the path leads, and nothing is left below it if nothing is
refused. -/
theorem removeDirectory_cases (t : FileTree) (p : Path) :
    (∃ e, t.removeDirectory p = (.error e, t) ∧
      ∀ l, t.locate p = .ok l → t.enter l = .error e) ∨
      ∃ l reply t', t.locate p = .ok l ∧ Cleared l t t' ∧ t.removeDirectory p = (reply, t') := by
  rw [removeDirectory]
  cases hl : t.locate p with
  | error e => exact .inl ⟨e, rfl, fun _ h => (by cases h)⟩
  | ok l =>
    simp only
    cases hd : t.enter l with
    | error e => exact .inl ⟨e, rfl, fun _ h => Except.ok.inj h ▸ hd⟩
    | ok u =>
      have hcleared := cleared_eraseBelow t l
      refine .inr ?_
      simp only
      split
      · exact ⟨l, _, _, rfl, hcleared, rfl⟩
      · exact ⟨l, _, _, rfl, hcleared, rfl⟩
      next l' hl' =>
        -- Walking by the same components ends at the same location.
        obtain rfl : l' = l :=
          (leads_of_place hl').trans (leads_of_place (locate_eq_ok.mp hl).1).symm
        split
        · exact ⟨l', _, _, rfl, hcleared, rfl⟩
        · exact ⟨l', _, _, rfl, hcleared, rfl⟩
        · exact ⟨l', _, _, rfl, hcleared.erase, rfl⟩

/-- Where a directory was removed, or none was found, nothing is left. -/
theorem Proper.nothing_inside (h : t.Proper) (hl : t.locate p = .ok l)
    {reply : Except FileError Unit}
    (hr : t.removeDirectory p = (reply, t')) (hreply : reply = .ok () ∨ reply = .error .notFound) :
    ∀ m ∈ inside l, t'.entry? m = none := by
  rcases removeDirectory_cases t p with ⟨e, he, henter⟩ | ⟨k, reply', t₁, hk, hc, he⟩
  · rw [hr] at he
    obtain ⟨rfl, rfl⟩ := Prod.mk.inj he
    -- Nothing was found there, and there is nothing below what is missing.
    obtain rfl : e = .notFound := Except.error.inj (hreply.resolve_left fun h => nomatch h)
    have hrefused := henter l hl
    rw [enter] at hrefused
    split at hrefused
    · cases hrefused
    · cases hrefused
    next hnone => exact fun m hm => h.missing hnone hm
  · rw [hr] at he
    obtain ⟨-, rfl⟩ := Prod.mk.inj he
    obtain rfl : k = l := Except.ok.inj (hk.symm.trans hl)
    exact hc.gone

/-! ## 5. Any change -/

/-- **No change spoils a tree**, nor does it lead elsewhere. -/
theorem Proper.apply (h : t.Proper) {c : FileChange} {reply : Except FileError Unit}
    (hc : t.apply c = (reply, t')) : t'.Proper ∧ t'.here = t.here := by
  have hkeep {r : Except FileError FileTree}
      (hr : ∀ t', r = .ok t' → t'.Proper ∧ t'.here = t.here) :
      (t.orKeep r).2.Proper ∧ (t.orKeep r).2.here = t.here := by
    cases r with
    | error e => exact ⟨h, rfl⟩
    | ok t' => exact hr t' rfl
  have hwrite {p : Path} {bytes : ByteArray} (t' : FileTree) (hw : t.writeFile p bytes = .ok t') :
      t'.Proper ∧ t'.here = t.here := by
    refine ⟨h.writeFile hw, ?_⟩
    obtain ⟨-, l, -, -, rfl⟩ := writeFile_eq_ok.mp hw
    rfl
  have hafter : t' = (t.apply c).2 := by rw [hc]
  rw [hafter]
  cases c with
  | makeDirectories p => exact ⟨h.makeDirectories p, (grown_makeDirectories t p).here⟩
  | writeFile p bytes => exact hkeep hwrite
  | replaceFile p bytes => exact hkeep fun t' ht' => hwrite t' (writeFile_of_replaceFile ht')
  | removeDirectory p =>
    show (t.removeDirectory p).2.Proper ∧ (t.removeDirectory p).2.here = t.here
    rcases removeDirectory_cases t p with ⟨e, hrefused, -⟩ | ⟨l, reply, t', -, hcleared, hremoved⟩
    · rw [hrefused]
      exact ⟨h, rfl⟩
    · rw [hremoved]
      exact ⟨h.cleared hcleared, hcleared.others.here⟩

end ScriptPlugins.FileTree
