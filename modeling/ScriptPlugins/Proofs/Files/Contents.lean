import ScriptPlugins.Compiled.ClassFile
import ScriptPlugins.Proofs.Files.Directories

/-!
# Contents — reading, writing and removing below a standing directory

All paths here go down by names from a standing directory, and the directories on their way are
there, or are missing and nothing else.
-/

namespace ScriptPlugins.FileTree

variable {S : Set Location} {t t' : FileTree} {p : Path} {l : Location} {ss : List String}

/-- The way down to a location consists of directories. -/
def Way (t : FileTree) (l : Location) (ss : List String) : Prop :=
  ∀ m ∈ between l ss, m ≠ l ++ ss → t.entry? m = some .directory

theorem way_one (t : FileTree) (l : Location) (s : String) : Way t l [s] := by
  intro m hm hne
  rcases mem_between_concat.mp (show m ∈ between l ([] ++ [s]) from hm) with h | h
  · exact absurd (h.trans (by simp)) hne
  · rw [between_nil] at h
    exact absurd h (Set.notMem_empty m)

theorem Way.concat (h : Way t l ss) (hd : ss = [] ∨ t.entry? (l ++ ss) = some .directory)
    (s : String) : Way t l (ss ++ [s]) := by
  intro m hm hne
  rcases mem_between_concat.mp hm with hm | hm
  · exact absurd (hm.trans (List.append_assoc ..)) hne
  · by_cases he : m = l ++ ss
    · rcases hd with rfl | hd
      · rw [between_nil] at hm
        exact absurd hm (Set.notMem_empty m)
      · rw [he, hd]
    · exact h m hm he

theorem way_two {s : String} (h : t.entry? (l ++ [s]) = some .directory) (s' : String) :
    Way t l [s, s'] := (way_one t l s).concat (.inr h) s'

/-! ## 1. Looking -/

theorem place_down (hp : Standing S t p l) (hn : ∀ s ∈ ss, IsName s) (hfit : Fits (p.down ss))
    (hw : Way t l ss) : t.place (p.down ss) = .ok (l ++ ss) :=
  place_eq hfit (walk_down hp hn hw)

theorem locate_down (hp : Standing S t p l) (hn : ∀ s ∈ ss, IsName s) (hne : ss ≠ [])
    (hfit : Fits (p.down ss)) (hw : Way t l ss) : t.locate (p.down ss) = .ok (l ++ ss) :=
  locate_eq hfit (endsInSlash_down hn hne p) (walk_down hp hn hw)

theorem locate_down_missing (hp : Standing S t p l) (hn : ∀ s ∈ ss, IsName s) (hne : ss ≠ [])
    (hfit : Fits (p.down ss))
    (hd : ∀ m ∈ between l ss, t.entry? m = none ∨ t.entry? m = some .directory)
    (hm : ∃ m ∈ between l ss, m ≠ l ++ ss ∧ t.entry? m = none) :
    t.locate (p.down ss) = .error .notFound :=
  locate_eq hfit (endsInSlash_down hn hne p) (walk_down_missing hp hn hd hm)

theorem look_of_locate {q : Path} {m : Location} {e : Entry} (h : t.locate q = .ok m)
    (hm : t.entry? m = some e) : t.look q = .ok e := by
  simp only [look, h, hm, bind, Except.bind]

theorem look_missing {q : Path} {m : Location} (h : t.locate q = .ok m)
    (hm : t.entry? m = none) : t.look q = .error .notFound := by
  simp only [look, h, hm, bind, Except.bind]

theorem look_nowhere {q : Path} {e : FileError} (h : t.locate q = .error e) :
    t.look q = .error e := by
  rw [look, h]
  rfl

theorem isThere_of_look {q : Path} {e : Entry} (h : t.look q = .ok e) : t.isThere q = true := by
  rw [isThere, h]
  rfl

theorem not_isThere_of_look {q : Path} {e : FileError} (h : t.look q = .error e) :
    t.isThere q = false := by
  rw [isThere, h]
  rfl

theorem isFile_of_look {q : Path} {bytes : ByteArray} (h : t.look q = .ok (.file bytes)) :
    t.isFile q = true := by rw [isFile, h]

theorem fromUTF8?_toUTF8 (s : String) : String.fromUTF8? s.toUTF8 = some s := by
  have h : s.toUTF8.IsValidUTF8 := s.isValidUTF8
  rw [String.fromUTF8?, dif_pos h]
  rfl

/-- A file is read as text if it is one. -/
theorem readText_eq {q : Path} {bytes : ByteArray} (h : t.look q = .ok (.file bytes)) :
    t.readText q = (String.fromUTF8? bytes).elim (.error .notUnicode) .ok := by
  simp only [readText, readBytes, h, bind, Except.bind]
  cases String.fromUTF8? bytes <;> rfl

/-- The text of a file that was written. -/
theorem readText_of_look {q : Path} {s : String} (h : t.look q = .ok (.file s.toUTF8)) :
    t.readText q = .ok s := by
  rw [readText_eq h, fromUTF8?_toUTF8]
  rfl

/-- What can be read is there. -/
theorem isThere_of_readText {q : Path} {s : String} (h : t.readText q = .ok s) :
    t.isThere q = true := by
  cases hlook : t.look q with
  | ok e => exact isThere_of_look hlook
  | error e =>
    rw [readText, readBytes, hlook] at h
    cases h

/-! ## 2. Writing -/

theorem writeFile_of_place {q : Path} {m : Location} (hs : q.endsInSlash = false)
    (h : t.place q = .ok m) (hm : t.entry? m ≠ some .directory) (bytes : ByteArray) :
    t.writeFile q bytes = .ok (t.put m (.file bytes)) := by
  rw [writeFile, hs, if_neg (by simp), h]
  simp only [bind, Except.bind]

theorem writeFile_down (hp : Standing S t p l) (hn : ∀ s ∈ ss, IsName s) (hne : ss ≠ [])
    (hfit : Fits (p.down ss)) (hw : Way t l ss) (hm : t.entry? (l ++ ss) ≠ some .directory)
    (bytes : ByteArray) :
    t.writeFile (p.down ss) bytes = .ok (t.put (l ++ ss) (.file bytes)) :=
  writeFile_of_place (endsInSlash_down hn hne p) (place_down hp hn hfit hw) hm bytes

theorem replaceFile_down (hp : Standing S t p l) (hn : ∀ s ∈ ss, IsName s) (hne : ss ≠ [])
    (hfit : Fits (p.down ss)) (hw : Way t l ss) (hm : t.entry? (l ++ ss) ≠ some .directory)
    (bytes : ByteArray) :
    t.replaceFile (p.down ss) bytes = .ok (t.put (l ++ ss) (.file bytes)) := by
  rw [replaceFile, if_neg (fits_iff.mp hfit).1]
  exact writeFile_down hp hn hne hfit hw hm bytes

/-! ## 3. Removing -/

/-- A tree without a location and everything below it. -/
structure Removed (m : Location) (t t' : FileTree) : Prop where
  here : t'.here = t.here
  gone : ∀ r, t'.entry? (m ++ r) = none
  others : ∀ k, ¬m <+: k → t'.entry? k = t.entry? k

theorem Removed.sameOutside (h : Removed (l ++ ss) t t') (hne : ss ≠ []) :
    SameOutside (inside l) t t' :=
  ⟨h.here, fun k hk => h.others k fun hp => hk ⟨(List.prefix_append l ss).trans hp, by
    rintro rfl
    exact hne (List.append_right_eq_self.mp (hp.eq_of_length_le (by simp)))⟩⟩

theorem getLast?_steps_down (hn : ∀ s ∈ ss, IsName s) (hne : ss ≠ []) (p : Path) :
    ∃ s, (p.down ss).steps.getLast? = some (.name s) := by
  obtain ⟨init, s, rfl⟩ := List.eq_nil_or_concat ss |>.resolve_left hne
  rw [List.concat_eq_append] at hn ⊢
  exact ⟨s, by rw [Path.down_concat, Path.steps_join (hn s (by simp)), List.getLast?_concat]⟩

/-- What a path leads to by a name is removed, also if the way there is walked once its contents are
gone. -/
theorem removeDirectory_of_walk {q : Path} {m : Location} (hfit : Fits q)
    (hslash : q.endsInSlash = false) (hlast : ∃ s, q.steps.getLast? = some (.name s)) (hm : m ≠ [])
    (hd : t.entry? m = some .directory) (hw : t.walk t.here q.steps = .ok m)
    (hw' : (t.eraseBelow m).walk t.here q.steps = .ok m) :
    ∃ t', t.removeDirectory q = (.ok (), t') ∧ Removed m t t' := by
  obtain ⟨s, hs⟩ := hlast
  refine ⟨(t.eraseBelow m).erase m, ?_, rfl, ?_, ?_⟩
  · have hplace : (t.eraseBelow m).place q = .ok m := place_eq hfit hw'
    rw [removeDirectory, locate_eq hfit hslash hw]
    simp only [enter_directory hd, hplace, hs]
  · intro r
    rw [entry?_erase _ hm, entry?_eraseBelow]
    split
    · rfl
    next hr =>
      rw [if_pos ⟨List.prefix_append _ r, Ne.symm hr⟩]
  · intro k hk
    have hke : k ≠ m := by
      rintro rfl
      exact hk (List.prefix_refl _)
    rw [entry?_erase _ hm, if_neg hke, entry?_eraseBelow, if_neg fun h => hk h.1]

theorem sameOutside_eraseBelow (t : FileTree) (m : Location) :
    SameOutside (inside m) t (t.eraseBelow m) :=
  ⟨rfl, fun _ hk => (entry?_eraseBelow ..).trans (if_neg hk)⟩

/-- Nothing that could be removed. -/
theorem removeDirectory_nothing {q : Path} {m : Location} (h : t.locate q = .ok m)
    (hm : t.entry? m = none) : t.removeDirectory q = (.error .notFound, t) := by
  rw [removeDirectory, h]
  simp only [enter_missing hm]

/-- A path that leads through the contents of its directory and back leads nowhere once they are
gone, so the directory stays. -/
theorem removeDirectory_winding {q : Path} {m : Location} (h : t.locate q = .ok m)
    (hd : t.entry? m = some .directory) (hlost : (t.eraseBelow m).place q = .error .notFound) :
    t.removeDirectory q = (.ok (), t.eraseBelow m) := by
  rw [removeDirectory, h]
  simp only [enter_directory hd, hlost]

theorem removeDirectory_there (hp : Standing S t p l) (hn : ∀ s ∈ ss, IsName s) (hne : ss ≠ [])
    (hfit : Fits (p.down ss)) (hw : Way t l ss) (hm : t.entry? (l ++ ss) = some .directory) :
    ∃ t', t.removeDirectory (p.down ss) = (.ok (), t') ∧ Removed (l ++ ss) t t' := by
  have hsame := sameOutside_eraseBelow t (l ++ ss)
  have hsub : inside (l ++ ss) ⊆ inside l := by
    rintro k ⟨hk, hke⟩
    refine ⟨(List.prefix_append l ss).trans hk, ?_⟩
    rintro rfl
    exact hke (hk.eq_of_length_le (by simp))
  have hp₁ : Standing S (t.eraseBelow (l ++ ss)) p l := hp.stays (hsame.mono (hsub.trans hp.below))
  have hw₁ : Way (t.eraseBelow (l ++ ss)) l ss := by
    intro m hmb hme
    rw [hsame.entries m fun hin => hme (hmb.2.eq_of_length_le hin.1.length_le)]
    exact hw m hmb hme
  exact removeDirectory_of_walk hfit (endsInSlash_down hn hne p) (getLast?_steps_down hn hne p)
    (by simp [hne]) hm (walk_down hp hn hw) (walk_down hp₁ hn hw₁)

theorem removeDirectory_missing (hp : Standing S t p l) (hn : ∀ s ∈ ss, IsName s) (hne : ss ≠ [])
    (hfit : Fits (p.down ss))
    (hd : ∀ m ∈ between l ss, t.entry? m = none ∨ t.entry? m = some .directory)
    (hm : ∃ m ∈ between l ss, t.entry? m = none) :
    t.removeDirectory (p.down ss) = (.error .notFound, t) := by
  by_cases hway : ∃ m ∈ between l ss, m ≠ l ++ ss ∧ t.entry? m = none
  · rw [removeDirectory, locate_down_missing hp hn hne hfit hd hway]
  · obtain ⟨m, hmb, hnone⟩ := hm
    have he : m = l ++ ss := not_not.mp fun hne' => hway ⟨m, hmb, hne', hnone⟩
    have hw : Way t l ss := fun k hk hke =>
      (hd k hk).resolve_left fun h => hway ⟨k, hk, hke, h⟩
    exact removeDirectory_nothing (locate_down hp hn hne hfit hw) (he ▸ hnone)

/-! ## 4. Listing -/

theorem mem_below {m : Location} {e : Entry} :
    (m, e) ∈ t.below l ↔ m ≠ [] ∧ t.entry? (l ++ m) = some e := by
  rw [below, List.mem_filterMap]
  constructor
  · rintro ⟨⟨k, e'⟩, hk, he⟩
    rw [Std.ExtTreeMap.mem_toList_iff_getElem?_eq_some] at hk
    simp only [Option.ite_none_right_eq_some, Option.some.injEq, Prod.mk.injEq,
      Bool.and_eq_true, List.isPrefixOf_iff_prefix, decide_eq_true_eq] at he
    obtain ⟨⟨⟨r, rfl⟩, hne⟩, hr, rfl⟩ := he
    rw [List.drop_left] at hr
    subst hr
    have hr : r ≠ [] := fun h => hne (by rw [h, List.append_nil])
    exact ⟨hr, by rw [entry?_of_ne_nil _ (by simp [hr])]; exact hk⟩
  · rintro ⟨hm, he⟩
    have hne : l ++ m ≠ [] := by simp [hm]
    rw [entry?_of_ne_nil _ hne] at he
    refine ⟨(l ++ m, e), Std.ExtTreeMap.mem_toList_iff_getElem?_eq_some.mpr he, ?_⟩
    simp [hm]

theorem mem_children {s : String} {e : Entry} :
    (s, e) ∈ t.children l ↔ t.entry? (l ++ [s]) = some e := by
  rw [children, List.mem_filterMap]
  constructor
  · rintro ⟨⟨m, e'⟩, hm, he⟩
    obtain _ | ⟨n, _ | ⟨n', m⟩⟩ := m
    · cases he
    · cases he
      exact (mem_below.mp hm).2
    · cases he
  · intro h
    exact ⟨([s], e), mem_below.mpr ⟨by simp, h⟩, rfl⟩

/-- No location is handed out twice. -/
theorem pairwise_below (t : FileTree) (l : Location) :
    (t.below l).Pairwise fun a b => a.1 ≠ b.1 := by
  have hkeys : t.entries.toList.Pairwise fun a b => a.1 ≠ b.1 :=
    Std.ExtTreeMap.distinct_keys_toList.imp fun h he =>
      h (Std.LawfulEqCmp.compare_eq_iff_eq.mpr he)
  refine hkeys.filterMap _ ?_
  rintro ⟨a, e⟩ ⟨b, e'⟩ hab ⟨r, _⟩ ha ⟨r', _⟩ hb rfl
  simp only [Option.ite_none_right_eq_some, Option.some.injEq, Prod.mk.injEq,
    Bool.and_eq_true, List.isPrefixOf_iff_prefix] at ha hb
  obtain ⟨⟨⟨s, rfl⟩, -⟩, hs, -⟩ := ha
  obtain ⟨⟨⟨s', rfl⟩, -⟩, hs', -⟩ := hb
  rw [List.drop_left] at hs hs'
  exact hab (by rw [hs, hs'])

/-- No name stands twice in a directory. -/
theorem nodup_children (t : FileTree) (l : Location) : ((t.children l).map Prod.fst).Nodup := by
  rw [List.Nodup, List.pairwise_map]
  refine (pairwise_below t l).filterMap _ ?_
  rintro ⟨a, e⟩ ⟨b, e'⟩ hab ⟨s, _⟩ ha ⟨s', _⟩ hb rfl
  obtain _ | ⟨n, _ | ⟨_, _⟩⟩ := a <;> obtain _ | ⟨n', _ | ⟨_, _⟩⟩ := b <;> cases ha <;> cases hb
  exact hab rfl

theorem list_of_locate {q : Path} {m : Location} (h : t.locate q = .ok m)
    (hm : t.entry? m = some .directory) : t.list q = .ok (t.children m).reverse := by
  rw [list, h]
  show (t.enter m >>= _) = _
  rw [enter_directory hm]
  rfl

end ScriptPlugins.FileTree
