import ScriptPlugins.Batch.Package
import ScriptPlugins.Proofs.Cache.Boxes
import ScriptPlugins.Proofs.Cache.Housing
import ScriptPlugins.Proofs.Job.Pools

/-!
# Copying — what stands in a directory, put into another one

All that stands in one directory is put at the same names below another.  What stood there before
stays, unless something of its name is put in its place.
-/

namespace ScriptPlugins

open FileTree

/-! ## 1. Paths that go down by several names at once -/

namespace Path

variable {q : Path} {s : String} {r : List String}

theorem down_append (q : Path) (r r' : List String) : q.down (r ++ r') = (q.down r).down r' :=
  List.foldl_append ..

theorem head?_joinWith (hs : IsStep s) (r : List String) :
    (Text.joinWith "/" (s :: r)).toList.head? ≠ some '/' := by
  have hhead := Text.head?_ne_slash hs.no_slash
  cases r with
  | nil => exact hhead
  | cons t r =>
    rw [Text.joinWith_cons, String.toList_append, String.toList_append, List.append_assoc,
      List.head?_append, List.head?_eq_some_head hs.toList_ne_nil, Option.some_or,
        ← List.head?_eq_some_head]
    exact hhead

/-- Steps with slashes between them lead where they lead one after the other. -/
theorem join_joinWith (q : Path) (hr : r ≠ []) (hn : ∀ s ∈ r, IsStep s) :
    q.join (Text.joinWith "/" r) = q.down r := by
  have htext : (q.join (Text.joinWith "/" r)).text = (q.down r).text := by
    obtain ⟨s, r, rfl⟩ := List.exists_cons_of_ne_nil hr
    rw [text_down hn hr, text_join_relative (head?_joinWith (hn s List.mem_cons_self) r)]
  exact congrArg Path.mk htext

end Path

/-! ## 2. What has been copied so far -/

namespace FileTree

/-- What is to stand at the names from a directory on: directories hold what stands below them, and
a path takes it all. -/
structure Packing (q : Path) (Q : Location → Option Entry) : Prop where
  root : Q [] = some .directory
  closed : ∀ r s, Q (r ++ [s]) ≠ none → Q r = some .directory
  isName : ∀ r, Q r ≠ none → ∀ s ∈ r, IsName s
  fits : ∀ r, Q r ≠ none → Fits (q.down r)

/-- A tree in which something has been put at some names from a directory on. -/
structure Overlaid (Q : Location → Option Entry) (D : Location) (P : Set Location)
    (t t' : FileTree) : Prop where
  some : ∀ r ∈ P, Q r ≠ none
  copied : ∀ r ∈ P, t'.entry? (D ++ r) = Q r
  kept : ∀ r, r ∉ P → t'.entry? (D ++ r) = t.entry? (D ++ r)
  others : SameOutside (subtree D) t t'

/-- A tree in which all has been put at the names from a directory on. -/
structure Copied (Q : Location → Option Entry) (D : Location) (t t' : FileTree) : Prop where
  entries : ∀ r, t'.entry? (D ++ r) = (Q r).or (t.entry? (D ++ r))
  others : SameOutside (subtree D) t t'

/-- A directory below a standing one, with the way to it, where there is room for what is to stand
there. -/
structure Site (S : Set Location) (t : FileTree) (p : Path) (l : Location) (ss : List String)
    (Q : Location → Option Entry) : Prop where
  stands : Standing S t p l
  isName : ∀ s ∈ ss, IsName s
  ne_nil : ss ≠ []
  way : Way t l ss
  packing : Packing (p.down ss) Q
  slash : Fits ((p.down ss).join "")
  room : ∀ r, Q r ≠ none → t.entry? (l ++ ss ++ r) = none ∨ t.entry? (l ++ ss ++ r) = Q r

variable {S : Set Location} {t t₁ t₂ : FileTree} {p q : Path} {l D r : Location} {ss : List String}
  {Q : Location → Option Entry} {P : Set Location}

/-- Whatever leads to something is a directory. -/
theorem Packing.directory (h : Packing q Q) (hr : Q r ≠ none) {r' : Location} (hp : r' <+: r)
    (hne : r' ≠ r) : Q r' = some .directory := by
  induction r using List.reverseRecOn with
  | nil => exact absurd (List.prefix_nil.mp hp) hne
  | append_singleton r s ih =>
    have hparent := h.closed r s hr
    rcases List.prefix_concat_iff.mp hp with he | hp
    · exact absurd he hne
    · by_cases he : r' = r
      · rw [he, hparent]
      · exact ih (by simp [hparent]) hp he

namespace Overlaid

theorem refl (Q : Location → Option Entry) (D : Location) (t : FileTree) : Overlaid Q D ∅ t t :=
  ⟨fun _ h => h.elim, fun _ h => h.elim, fun _ _ => rfl, .refl _ _⟩

/-- More is put at some names, and nothing else changes. -/
theorem step (h : Overlaid Q D P t t₁) {P' : Set Location} (hsome : ∀ r ∈ P', Q r ≠ none)
    (hcopied : ∀ r ∈ P', t₂.entry? (D ++ r) = Q r)
    (hkept : ∀ r, r ∉ P' → t₂.entry? (D ++ r) = t₁.entry? (D ++ r))
    (hothers : SameOutside (subtree D) t₁ t₂) : Overlaid Q D (P ∪ P') t t₂ where
  some r hr := hr.elim (h.some r) (hsome r)
  copied r hr := by
    by_cases hr' : r ∈ P'
    · exact hcopied r hr'
    · rw [hkept r hr', h.copied r (hr.resolve_right hr')]
  kept r hr := by
    rw [hkept r fun hr' => hr (.inr hr'), h.kept r fun hr' => hr (.inl hr')]
  others := h.others.trans hothers

theorem copied_all (h : Overlaid Q D P t t₁) (hall : ∀ r, Q r ≠ none → r ∈ P) :
    Copied Q D t t₁ where
  entries r := by
    by_cases hr : Q r = none
    · rw [h.kept r fun hm => h.some r hm hr, hr]
      rfl
    · obtain ⟨e, he⟩ := Option.ne_none_iff_exists'.mp hr
      rw [h.copied r (hall r hr), he]
      rfl
  others := h.others

end Overlaid

namespace Site

/-- What stands where something is to be put is nothing, or that. -/
theorem entry? (h : Site S t p l ss Q) (ho : Overlaid Q (l ++ ss) P t t₁) (hr : Q r ≠ none) :
    t₁.entry? (l ++ ss ++ r) = none ∨ t₁.entry? (l ++ ss ++ r) = Q r := by
  by_cases hm : r ∈ P
  · exact .inr (ho.copied r hm)
  · rw [ho.kept r hm]
    exact h.room r hr

theorem subtree_subset (h : Site S t p l ss Q) : subtree (l ++ ss) ⊆ S := by
  rintro m ⟨r, rfl⟩
  rw [List.append_assoc]
  exact h.stands.below (mem_inside (by simp [h.ne_nil]))

theorem standing (h : Site S t p l ss Q) (ho : Overlaid Q (l ++ ss) P t t₁) : Standing S t₁ p l :=
  h.stands.stays (ho.others.mono h.subtree_subset)

theorem fits (h : Site S t p l ss Q) (hr : Q r ≠ none) : Fits (p.down (ss ++ r)) := by
  rw [Path.down_append]
  exact h.packing.fits r hr

theorem isName_append (h : Site S t p l ss Q) (hr : Q r ≠ none) : ∀ s ∈ ss ++ r, IsName s := by
  intro s hs
  rcases List.mem_append.mp hs with hs | hs
  · exact h.isName s hs
  · exact h.packing.isName r hr s hs

/-- What lies on the way to something is on the way to the directory, or leads on from there. -/
theorem between_append {m : Location} (hm : m ∈ between l (ss ++ r)) :
    (m ∈ between l ss ∧ m ≠ l ++ ss) ∨ ∃ r', r' <+: r ∧ m = l ++ ss ++ r' := by
  have hp : m <+: l ++ ss ++ r := by rw [List.append_assoc]; exact hm.2
  rcases List.prefix_or_prefix_of_prefix hp (List.prefix_append (l ++ ss) r) with h | ⟨r', rfl⟩
  · by_cases he : m = l ++ ss
    · exact .inr ⟨[], List.nil_prefix, by rw [he, List.append_nil]⟩
    · exact .inl ⟨⟨hm.1, h⟩, he⟩
  · exact .inr ⟨r', (List.prefix_append_right_inj _).mp hp, rfl⟩

theorem mem_between (h : Site S t p l ss Q) {r' : Location} (hp : r' <+: r) :
    l ++ ss ++ r' ∈ between l (ss ++ r) := by
  rw [List.append_assoc]
  exact ⟨mem_inside (by simp [h.ne_nil]), (List.prefix_append_right_inj _).mpr
    ((List.prefix_append_right_inj _).mpr hp)⟩

/-- The way to the directory stays. -/
theorem way_entry? (h : Site S t p l ss Q) (ho : Overlaid Q (l ++ ss) P t t₁) {m : Location}
    (hm : m ∈ between l ss) (hne : m ≠ l ++ ss) : t₁.entry? m = some .directory := by
  rw [ho.others.entries m fun hs => hne (hm.2.eq_of_length_le hs.length_le), h.way m hm hne]

/-- A directory is made where one is to stand, with those on the way to it. -/
theorem makeDirectories (h : Site S t p l ss Q) (ho : Overlaid Q (l ++ ss) P t t₁)
    (hr : Q r = some .directory) :
    ∃ t₂, t₁.makeDirectories (p.down (ss ++ r)) = (.ok (), t₂) ∧
      Overlaid Q (l ++ ss) (P ∪ {r' | r' <+: r}) t t₂ ∧ MadeDown l (ss ++ r) t₁ t₂ := by
  have hr' : Q r ≠ none := by simp [hr]
  have hdirectory (r' : Location) (hp : r' <+: r) : Q r' = some .directory := by
    by_cases he : r' = r
    · rw [he, hr]
    · exact h.packing.directory hr' hp he
  have hclear : ∀ m ∈ between l (ss ++ r), t₁.entry? m = none ∨ t₁.entry? m = some .directory := by
    intro m hm
    rcases between_append hm with ⟨hm, hne⟩ | ⟨r', hp, rfl⟩
    · exact .inr (h.way_entry? ho hm hne)
    · rw [← hdirectory r' hp]
      exact h.entry? ho (by simp [hdirectory r' hp])
  obtain ⟨t₂, ht₂, hmade⟩ := makeDirectories_down (h.standing ho) (h.isName_append hr')
    (by simp [h.ne_nil]) (h.fits hr') hclear
  refine ⟨t₂, ht₂, ho.step (fun r' hp => by simp [hdirectory r' hp]) (fun r' hp => ?_)
    (fun r' hp => hmade.others _ fun hm => hp ?_) ⟨hmade.here, fun m hm => ?_⟩, hmade⟩
  · rw [hmade.made _ (h.mem_between hp), hdirectory r' hp]
  · exact (List.prefix_append_right_inj (l ++ ss)).mp (by rw [List.append_assoc l ss r]; exact hm.2)
  · by_cases hb : m ∈ between l (ss ++ r)
    · rcases between_append hb with ⟨hb', hne⟩ | ⟨r', -, rfl⟩
      · rw [hmade.made m hb, h.way_entry? ho hb' hne]
      · exact absurd (List.prefix_append _ _) hm
    · exact hmade.others m hb

/-- A file is written where one is to stand, once its directory is made. -/
theorem writeFile (h : Site S t p l ss Q) (ho : Overlaid Q (l ++ ss) P t t₁) {s : String}
    {bytes : ByteArray} (hr : Q (r ++ [s]) = some (.file bytes))
    (hmade : MadeDown l (ss ++ r) t₁ t₁) :
    t₁.writeFile (p.down (ss ++ (r ++ [s]))) bytes =
        .ok (t₁.put (l ++ ss ++ (r ++ [s])) (.file bytes)) ∧
      Overlaid Q (l ++ ss) (P ∪ {r ++ [s]}) t (t₁.put (l ++ ss ++ (r ++ [s])) (.file bytes)) := by
  have hr' : Q (r ++ [s]) ≠ none := by simp [hr]
  have hway : Way t₁ l (ss ++ (r ++ [s])) := by
    rw [← List.append_assoc]
    refine Way.concat (fun m hm _ => hmade.made m hm) (.inr (hmade.made _ ?_)) s
    exact ⟨mem_inside (by simp [h.ne_nil]), List.prefix_refl _⟩
  have hnot : t₁.entry? (l ++ (ss ++ (r ++ [s]))) ≠ some .directory := by
    rw [← List.append_assoc]
    rcases h.entry? ho hr' with he | he <;> rw [he]
    · simp
    · simp [hr]
  have hwrite := writeFile_down (h.standing ho) (h.isName_append hr') (by simp) (h.fits hr') hway
    hnot bytes
  have hne : l ++ ss ++ (r ++ [s]) ≠ [] := by simp
  rw [← List.append_assoc l ss] at hwrite
  refine ⟨hwrite, ho.step (fun r' he => ?_) (fun r' he => ?_) (fun r' hm => ?_)
    (.put hne _ (List.prefix_append _ _))⟩
  · rw [Set.mem_singleton_iff.mp he]
    exact hr'
  · rw [Set.mem_singleton_iff.mp he, entry?_put_self _ hne, hr]
  · exact entry?_put_of_ne _ hne _ fun he => hm (List.append_cancel_left he)

/-- The directory itself is made, or is there. -/
theorem makeRoot (h : Site S t p l ss Q) (ho : Overlaid Q (l ++ ss) P t t₁) :
    ∃ t₂, t₁.makeDirectories ((p.down ss).join "") = (.ok (), t₂) ∧
      Overlaid Q (l ++ ss) (P ∪ {[]}) t t₂ := by
  have htext := text_down_ne h.isName h.ne_nil p
  have hslash := endsInSlash_down h.isName h.ne_nil p
  have hwalk : t₁.walk t₁.here (p.down ss).steps = .ok (l ++ ss) :=
    walk_down (h.standing ho) h.isName fun m hm hne => h.way_entry? ho hm hne
  have hplace : t₁.place ((p.down ss).join "") = .ok (l ++ ss) :=
    place_eq h.slash (by rw [Path.steps_join_empty, hwalk])
  have hne : l ++ ss ≠ [] := by simp [h.ne_nil]
  have hroot : Q [] = some .directory := h.packing.root
  have hsome : ∀ r ∈ ({[]} : Set Location), Q r ≠ none := by
    rintro r rfl
    simp [hroot]
  have hentry := h.entry? ho (r := []) (by simp [hroot])
  rw [List.append_nil, hroot] at hentry
  -- Either an earlier step has made it, or nothing is there.
  rcases hentry with hnone | hthere
  · refine ⟨_, makeDirectories_of_place h.slash.text_ne hplace hnone, ho.step hsome ?_ ?_
      (.put hne _ (List.prefix_refl _))⟩
    · rintro r rfl
      rw [List.append_nil, entry?_put_self _ hne, hroot]
    · exact fun r hm => entry?_put_of_ne _ hne _ fun he => hm (List.append_right_eq_self.mp he)
  · have hlocate : t₁.locate ((p.down ss).join "") = .ok (l ++ ss) := by
      have hsteps : t₁.walk t₁.here ((p.down ss).steps ++ [.here]) = .ok (l ++ ss) := by
        rw [walk_append, hwalk]
        show t₁.walk (l ++ ss) [.here] = _
        rw [walk, enter_directory hthere]
        rfl
      rw [locate, h.slash, Path.endsInSlash_join_empty htext,
        Path.steps_join_empty]
      exact hsteps
    refine ⟨t₁, makeDirectories_there h.slash.text_ne hplace hlocate hthere, ho.step hsome ?_
      (fun _ _ => rfl) (.refl _ _)⟩
    rintro r rfl
    rw [List.append_nil, hthere, hroot]

end Site

end FileTree

/-! ## 3. Counting files -/

/-- How many files an entry is. -/
def Entry.count : Entry → Nat
  | .directory => 0
  | .file _ => 1

/-- What is in a file. -/
def Entry.bytes? : Entry → Option ByteArray
  | .directory => none
  | .file bytes => some bytes

namespace FileTree

/-- How many files there are below a location. -/
def fileCount (t : FileTree) (l : Location) : Nat := ((t.below l).map fun x => x.2.count).sum

/-- The files below a location, each with its location from there. -/
def filesBelow (t : FileTree) (l : Location) : List (Location × ByteArray) :=
  (t.below l).filterMap fun x => x.2.bytes?.map (x.1, ·)

theorem mem_filesBelow {t : FileTree} {l r : Location} {bytes : ByteArray} :
    (r, bytes) ∈ t.filesBelow l ↔ r ≠ [] ∧ t.entry? (l ++ r) = some (.file bytes) := by
  rw [← mem_below, filesBelow, List.mem_filterMap]
  constructor
  · rintro ⟨⟨r', e⟩, hmem, he⟩
    cases e with
    | directory => cases he
    | file bytes' =>
      cases he
      exact hmem
  · exact fun h => ⟨(r, .file bytes), h, rfl⟩

/-- No location is listed twice. -/
theorem nodup_filesBelow (t : FileTree) (l : Location) : ((t.filesBelow l).map Prod.fst).Nodup := by
  rw [List.Nodup, List.pairwise_map]
  refine (pairwise_below t l).filterMap _ ?_
  rintro ⟨r, _ | bytes⟩ ⟨r', _ | bytes'⟩ hne _ ha _ hb heq <;> cases ha <;> cases hb
  exact hne heq

/-- To count files is to list them. -/
theorem fileCount_eq (t : FileTree) (l : Location) : t.fileCount l = (t.filesBelow l).length := by
  rw [fileCount, filesBelow]
  induction t.below l with
  | nil => rfl
  | cons x xs ih =>
    rw [List.map_cons, List.sum_cons, ih, List.filterMap_cons]
    cases x.2 with
    | directory => exact Nat.zero_add _
    | file bytes => exact Nat.add_comm ..

/-- Where the same files are, there are as many of them. -/
theorem fileCount_congr {t t' : FileTree} {l l' : Location}
    (h : ∀ r, (t.entry? (l ++ r)).map Entry.count = (t'.entry? (l' ++ r)).map Entry.count) :
    t.fileCount l = t'.fileCount l' := by
  have hmem {u u' : FileTree} {k k' : Location}
      (h : ∀ r, (u.entry? (k ++ r)).map Entry.count = (u'.entry? (k' ++ r)).map Entry.count)
      {x : Location × Nat} (hx : x ∈ (u.below k).map fun y => (y.1, y.2.count)) :
      x ∈ (u'.below k').map fun y => (y.1, y.2.count) := by
    obtain ⟨⟨r, e⟩, hm, rfl⟩ := List.mem_map.mp hx
    obtain ⟨hr, he⟩ := mem_below.mp hm
    obtain ⟨e', he', hcount⟩ := Option.map_eq_some_iff.mp
      ((h r).symm.trans (by rw [he, Option.map_some]))
    exact List.mem_map.mpr ⟨(r, e'), mem_below.mpr ⟨hr, he'⟩, by rw [hcount]⟩
  have hnodup (u : FileTree) (k : Location) :
      ((u.below k).map fun y => (y.1, y.2.count)).Nodup :=
    List.pairwise_map.mpr ((pairwise_below u k).imp fun hne he => hne (Prod.mk.inj he).1)
  have hperm := (List.perm_ext_iff_of_nodup (hnodup t l) (hnodup t' l')).mpr fun x =>
    ⟨fun hx => hmem h hx, fun hx => hmem (fun r => (h r).symm) hx⟩
  have hsum := (hperm.map Prod.snd).sum_eq
  rwa [List.map_map, List.map_map] at hsum

end FileTree

/-! ## 4. Copying -/

variable {S : Set Location} {t : FileTree} {p source : Path} {l m r : Location} {ss : List String}
  {Q : Location → Option Entry} {P : Set Location} {w : World}

/-- One entry is copied. -/
theorem run_copyEntry (h : Site S t p l ss Q) (ho : Overlaid Q (l ++ ss) P t w.files) {e : Entry}
    (hr : Q r = some e) :
    ∃ t' P', Job.run (copyEntry ((p.down ss).join (Text.joinWith "/" r)) e).run w =
        (.ok e.count, { w with files := t' }) ∧
      Overlaid Q (l ++ ss) P' t t' ∧ P ⊆ P' ∧ r ∈ P' := by
  -- The root has no parent among the entries that are copied; all others have one.
  obtain rfl | ⟨r₀, s, rfl⟩ := List.eq_nil_or_concat' r
  · obtain ⟨t', ht', ho'⟩ := h.makeRoot ho
    obtain rfl : e = .directory := Option.some.inj (hr.symm.trans h.packing.root)
    exact ⟨t', _, Attempt.run_bind_ok (run_makeDirectories ht'), ho',
      Set.subset_union_left, .inr rfl⟩
  · have hr' : Q (r₀ ++ [s]) ≠ none := by simp [hr]
    rw [Path.join_joinWith _ (by simp) fun s hs => (h.packing.isName _ hr' s hs).step,
      ← Path.down_append]
    cases e with
    | directory =>
      obtain ⟨t', ht', ho', -⟩ := h.makeDirectories ho hr
      exact ⟨t', _, Attempt.run_bind_ok (run_makeDirectories ht'), ho', Set.subset_union_left,
        .inr (List.prefix_refl _)⟩
    | file bytes =>
      have hn := h.isName_append hr'
      have hparent : (p.down (ss ++ (r₀ ++ [s]))).parent? = some (p.down (ss ++ r₀)) := by
        rw [← List.append_assoc]
        rw [← List.append_assoc] at hn
        exact Path.parent?_down (fun s' hs' => (hn s' (List.mem_append_left _ hs')).step)
          (by simp [h.ne_nil]) (hn s (by simp)).step p
      obtain ⟨t₁, ht₁, ho₁, hmade⟩ := h.makeDirectories ho (h.packing.closed _ _ hr')
      obtain ⟨ht₂, ho₂⟩ := h.writeFile ho₁ hr ⟨rfl, hmade.made, fun _ _ => rfl⟩
      have happly : w.files.apply (.makeDirectories (p.down (ss ++ r₀))) = (.ok (), t₁) := ht₁
      have happly' : t₁.apply (.writeFile (p.down (ss ++ (r₀ ++ [s]))) bytes) =
          (.ok (), t₁.put (l ++ ss ++ (r₀ ++ [s])) (.file bytes)) := by
        rw [FileTree.apply, ht₂]
        rfl
      have hwrite : Job.run (Attempt.change (BuildError.files (p.down (ss ++ (r₀ ++ [s]))))
          (.writeFile (p.down (ss ++ (r₀ ++ [s]))) bytes)).run { w with files := t₁ } = _ :=
        Attempt.run_change happly'
      refine ⟨_, _, ?_, ho₂, Set.subset_union_left.trans Set.subset_union_left, .inr rfl⟩
      rw [copyEntry, hparent, Attempt.run_bind_ok (Attempt.run_change happly),
        Attempt.run_bind_ok hwrite]
      rfl

/-- Entries are copied in turn. -/
theorem run_copyEntries (h : Site S t p l ss Q) (ho : Overlaid Q (l ++ ss) P t w.files)
    {es : List (Location × Entry)} (hes : ∀ x ∈ es, Q x.1 = some x.2) :
    ∃ t' P', Job.run ((es.map fun (x : Location × Entry) => (Text.joinWith "/" x.1, x.2)).mapM
        fun (name, e) => copyEntry ((p.down ss).join name) e).run w =
        (.ok (es.map fun (x : Location × Entry) => x.2.count), { w with files := t' }) ∧
      Overlaid Q (l ++ ss) P' t t' ∧ P ⊆ P' ∧ ∀ x ∈ es, x.1 ∈ P' := by
  induction es generalizing w P with
  | nil => exact ⟨_, P, rfl, ho, subset_rfl, fun x hx => nomatch hx⟩
  | cons x es ih =>
    obtain ⟨t₁, P₁, hrun₁, ho₁, hsub₁, hmem₁⟩ := run_copyEntry h ho (hes x List.mem_cons_self)
    obtain ⟨t₂, P₂, hrun₂, ho₂, hsub₂, hmem₂⟩ := ih (w := { w with files := t₁ }) ho₁
      fun y hy => hes y (List.mem_cons_of_mem _ hy)
    refine ⟨t₂, P₂, ?_, ho₂, hsub₁.trans hsub₂, fun y hy => ?_⟩
    · rw [List.map_cons, List.mapM_cons, Attempt.run_bind_ok hrun₁, Attempt.run_bind_ok hrun₂]
      rfl
    · rcases List.mem_cons.mp hy with rfl | hy
      · exact hsub₂ hmem₁
      · exact hmem₂ y hy

theorem walkFrom_of_locate (h : t.locate source = .ok m) (hd : t.entry? m = some .directory) :
    t.walkFrom source =
      .ok ((([], .directory) :: t.below m).map fun x => (Text.joinWith "/" x.1, x.2)) := by
  rw [walkFrom, look_of_locate h hd, h]
  rfl

/-- **A directory is copied with all that stands below it**, and nothing else changes. -/
theorem run_copyTree (hsource : w.files.locate source = .ok m)
    (h : Site S w.files p l ss fun r => w.files.entry? (m ++ r)) :
    ∃ t', Job.run (copyTree source (p.down ss)).run w =
        (.ok (w.files.fileCount m), { w with files := t' }) ∧
      Copied (fun r => w.files.entry? (m ++ r)) (l ++ ss) w.files t' := by
  have hd : w.files.entry? m = some .directory := by simpa using h.packing.root
  have hentries : ∀ x ∈ ([], .directory) :: w.files.below m, w.files.entry? (m ++ x.1) =
      some x.2 := by
    intro x hx
    rcases List.mem_cons.mp hx with rfl | hx
    · simpa using hd
    · exact (mem_below.mp hx).2
  obtain ⟨t', P', hrun, ho, -, hmem⟩ := run_copyEntries h (.refl ..) hentries
  refine ⟨t', ?_, ho.copied_all fun r hr => ?_⟩
  · have hwalk : (w.files.walkFrom source).mapError (BuildError.files source) =
        .ok ((([], Entry.directory) :: w.files.below m).map fun x =>
          (Text.joinWith "/" x.1, x.2)) := by
      rw [walkFrom_of_locate hsource hd]
      rfl
    rw [copyTree, Attempt.run_bind_ok (Attempt.run_files w),
      Attempt.run_bind_ok (Attempt.run_of hwalk w), Attempt.run_bind_ok hrun]
    show ((Except.ok (List.sum _), _) : Except BuildError Nat × World) = _
    rw [List.map_cons, List.sum_cons, Entry.count, Nat.zero_add, fileCount]
  · obtain ⟨e, he⟩ := Option.ne_none_iff_exists'.mp hr
    by_cases hnil : r = []
    · exact hnil ▸ hmem _ List.mem_cons_self
    · exact hmem (r, e) (List.mem_cons_of_mem _ (mem_below.mpr ⟨hnil, he⟩))

end ScriptPlugins
