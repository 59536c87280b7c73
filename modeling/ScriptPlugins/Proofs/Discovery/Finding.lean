import ScriptPlugins.Proofs.Discovery.Patterns
import ScriptPlugins.Proofs.Files.Changes
import ScriptPlugins.Proofs.Files.Copying

/-!
# Finding — where the pattern for the files below a directory leads

The pattern goes through the pieces of the directory one by one, and each path that it comes to
leads to where the directory's own path leads so far.  Only a path that begins with `./` and goes on
with a slash loses its way: the point is not named, so the empty piece behind it is looked for by an
empty path.
-/

namespace ScriptPlugins

/-! ## 1. Paths that a pattern comes to -/

namespace Path

variable {p q : Path} {s : String}

/-- What the names in a directory are joined to: nothing, if it is the working directory. -/
def ground (p : Path) : Path := if p.isHere then ⟨""⟩ else p

/-- What the names in a directory stand behind. -/
def stem (p : Path) : String := (p.ground.join "").text

theorem child_eq (p : Path) (s : String) : p.child s = p.ground.join s := by
  unfold child ground
  split
  · rw [join]
    split
    · rfl
    · rw [if_pos (.inl rfl), String.empty_append]
  · rfl

theorem text_child (hs : s.toList.head? ≠ some '/') (p : Path) :
    (p.child s).text = p.stem ++ s := by
  rw [child_eq, text_join_relative hs, stem]

theorem isHere_iff : p.isHere = true ↔ ∃ cs, p.steps = .here :: cs ∧ ∀ c ∈ cs, c = .here := by
  rw [isHere, decide_eq_true_eq, components]
  cases p.steps with
  | nil => simp
  | cons c cs => simp

theorem ground_eq (h : p.isHere = false) : p.ground = p := if_neg (Bool.eq_false_iff.mp h)

/-- What goes on behind another path than the point is no point. -/
theorem isHere_child (h : p.isHere = false) (hp : p.steps ≠ []) (hs : s.toList.head? ≠ some '/') :
    (p.child s).isHere = false := by
  obtain ⟨c, cs, hc⟩ := List.exists_cons_of_ne_nil hp
  rw [child_eq, ground_eq h]
  rw [← Bool.not_eq_true, isHere_iff] at h ⊢
  rintro ⟨ds, hds, hall⟩
  rw [steps_join_relative hs, hc] at hds
  obtain ⟨rfl, rfl⟩ := List.cons.inj hds
  exact h ⟨cs, hc, fun d hd => hall d (List.mem_append_left _ hd)⟩

/-- A path that goes down by names is no point, and its name is the last one. -/
theorem isHere_down {r : List String} (hr : r ≠ []) (hn : ∀ s ∈ r, IsName s) (p : Path) :
    (p.down r).isHere = false := by
  obtain ⟨init, s, rfl⟩ := List.eq_nil_or_concat' r |>.resolve_left hr
  rw [← Bool.not_eq_true, isHere_iff, steps_down (fun s hs => (hn s hs).part), List.map_append,
    ← List.append_assoc]
  rintro ⟨cs, hcs, hall⟩
  have hlast : Component.name s ∈ Component.here :: cs := by
    rw [← hcs]
    simp
  rcases List.mem_cons.mp hlast with h | h
  · cases h
  · cases hall _ h

theorem fileName?_of_steps {cs : List Component} (h : p.steps = cs ++ [.name s]) :
    p.fileName? = some s := by
  have hlast : p.components.getLast? = some (.name s) := by
    rw [components, h]
    cases cs with
    | nil => rfl
    | cons c cs =>
      simp only [List.cons_append, List.filter_append]
      exact List.getLast?_concat (l := c :: cs.filter _)
  rw [fileName?, hlast]

theorem foldl_child {r : List String} (hr : r ≠ []) (hn : ∀ s ∈ r, IsName s) (p : Path) :
    r.foldl child p = p.ground.down r := by
  induction r using List.reverseRecOn with
  | nil => exact absurd rfl hr
  | append_singleton r s ih =>
    rw [List.foldl_concat, child_eq, down_concat]
    by_cases he : r = []
    · subst he
      rfl
    · have hn' : ∀ s ∈ r, IsName s := fun s' hs' => hn s' (List.mem_append_left _ hs')
      rw [ih he hn', ground_eq (isHere_down he hn' _)]

@[simp] theorem isHere_point : isHere ⟨"."⟩ = true := by decide +kernel

theorem child_point (s : String) : child ⟨"."⟩ s = ⟨s⟩ := if_pos isHere_point

theorem isHere_step (hs : IsStep s) : isHere ⟨s⟩ = false := by
  have hsteps : (Path.mk s).steps = [component s] := by
    rw [steps_eq, if_neg (Text.head?_ne_slash hs.no_slash), partsOf_step hs]
  rw [← Bool.not_eq_true, isHere_iff, hsteps]
  rintro ⟨cs, hcs, -⟩
  have hpoint : s.toList = ['.'] := by
    have hhere : ofPart s.toList = .here := (List.cons.inj hcs).1
    unfold ofPart at hhere
    split at hhere
    · assumption
    · split at hhere <;> cases hhere
  exact hs.ne_here (String.toList_inj.mp hpoint)

/-- The next path is the point again, or no point at all. -/
theorem shape_child (h : p = ⟨"."⟩ ∨ p.isHere = false) (hp : p.steps ≠ []) (hs : '/' ∉ s.toList)
    (hempty : p = ⟨"."⟩ → s ≠ "") : p.child s = ⟨"."⟩ ∨ (p.child s).isHere = false := by
  rcases h with rfl | h
  · rw [child_point]
    by_cases hpoint : s = "."
    · exact .inl (congrArg Path.mk hpoint)
    · exact .inr (isHere_step ⟨hempty rfl, hs, hpoint⟩)
  · exact .inr (isHere_child h hp (Text.head?_ne_slash hs))

theorem text_join_empty_sublist (p : Path) :
    List.Sublist (p.join "").text.toList (p.text.toList ++ ['/']) := by
  rw [text_join_empty]
  split
  · exact List.sublist_append_left ..
  · rw [String.toList_append]
    exact List.Sublist.refl _

/-- A path takes no more than the text of the pieces that led to it. -/
theorem stem_child_sublist (hs : s.toList.head? ≠ some '/') (p : Path) :
    List.Sublist (p.child s).stem.toList (p.stem.toList ++ (s.toList ++ ['/'])) := by
  rw [stem, ground]
  split
  · exact List.nil_sublist _
  · have htext : (p.child s).text.toList = p.stem.toList ++ s.toList := by
      rw [text_child hs, String.toList_append]
    rw [← List.append_assoc, ← htext]
    exact text_join_empty_sublist _

theorem text_child_ne (h : p = ⟨"."⟩ ∨ p.isHere = false) (hp : p.text ≠ "")
    (hs : s.toList.head? ≠ some '/') (hempty : p = ⟨"."⟩ → s ≠ "") : (p.child s).text ≠ "" := by
  rcases h with rfl | h
  · rw [child_point]
    exact hempty rfl
  · rw [text_child hs, stem, ground_eq h]
    obtain ⟨cs, hcs⟩ := eq_append_slash (endsInSlash_join_empty hp)
    intro he
    have hnil := congrArg String.toList he
    rw [String.toList_append, hcs] at hnil
    simp at hnil

end Path

namespace FileTree

variable {t : FileTree} {p q w : Path} {l m : Location} {s : String} {names : List String}

/-- A path that a pattern has come to, and the directory that it leads to.  It is the point that
patterns begin with, or it is a path that names go on behind. -/
structure Reached (t : FileTree) (p : Path) (l : Location) : Prop where
  shape : p = ⟨"."⟩ ∨ p.isHere = false
  fits : Fits p
  walk : t.walk t.here p.steps = .ok l
  directory : t.entry? l = some .directory

namespace Reached

theorem locate (h : t.Reached p l) : t.locate p = .ok l :=
  locate_eq_ok.mpr ⟨place_eq_ok.mpr ⟨h.fits, h.walk⟩, fun _ => h.directory⟩

theorem isDirectory (h : t.Reached p l) : t.isDirectory p = true := by
  rw [FileTree.isDirectory, look_of_locate h.locate h.directory]

/-- What its names are joined to leads there, too. -/
theorem walk_ground (h : t.Reached p l) : t.walk t.here p.ground.steps = .ok l := by
  rcases h.shape with rfl | hp
  · exact (walk_cons_eq_ok.mp h.walk).2.2
  · rw [Path.ground, hp]
    exact h.walk

/-- The path comes to where the next piece leads. -/
theorem child (h : t.Reached p l) (hs : '/' ∉ s.toList) (hempty : p = ⟨"."⟩ → s ≠ "")
    (hw : t.walk l (Path.partsOf s.toList) = .ok m)
    (hm : t.entry? m = some .directory) (hfits : Fits w)
    (hsub : List.Sublist (p.stem.toList ++ (s.toList ++ ['/'])) w.text.toList) :
    t.Reached (p.child s) m := by
  have hhead := Text.head?_ne_slash hs
  refine ⟨Path.shape_child h.shape (Path.steps_ne_nil h.fits.text_ne) hs hempty, ?_, ?_, hm⟩
  · refine hfits.of_sublist (Path.text_child_ne h.shape h.fits.text_ne hhead hempty) ?_
    rw [Path.text_child hhead, String.toList_append]
    exact .trans (by rw [← List.append_assoc]; exact List.sublist_append_left ..) hsub
  · rw [Path.child_eq, Path.steps_join_relative hhead, walk_append, h.walk_ground]
    exact hw

end Reached

theorem directory_of_walk {cs : List Component} (h : t.walk l cs = .ok m)
    (hm : t.entry? m = some .directory) : t.entry? l = some .directory := by
  cases cs with
  | nil => rwa [Except.ok.inj h]
  | cons c cs => exact (walk_cons_eq_ok.mp h).1

/-! ## 2. The pieces of a directory -/

/-- A plain piece is there if what it leads to is. -/
theorem find_plain_cons (h : t.Reached p l) (hq : t.Reached (p.child s) m) (rest : List Segment) :
    t.find (.plain s :: rest) p = t.find rest (p.child s) := by
  have hthere : t.isThere (p.child s) = true :=
    isThere_of_look (look_of_locate hq.locate hq.directory)
  rw [find]
  simp only [hthere, h.isDirectory, ite_self, if_true]

/-- **The pieces of a directory are walked one by one.** -/
theorem find_plain (h : t.Reached p l) (hnames : ∀ s ∈ names, '/' ∉ s.toList)
    (hstart : p = ⟨"."⟩ → (names.dropWhile (· = ".")).head? ≠ some "")
    (hw : t.walk l (names.flatMap fun s => Path.partsOf s.toList) = .ok m)
    (hm : t.entry? m = some .directory) (hfits : Fits w)
    (hsub : List.Sublist (p.stem.toList ++ slashed names) w.text.toList) :
    ∃ q, t.Reached q m ∧ List.Sublist q.stem.toList (p.stem.toList ++ slashed names) ∧
      ∀ rest, t.find (names.map .plain ++ rest) p = t.find rest q := by
  induction names generalizing p l with
  | nil =>
    obtain rfl := Except.ok.inj hw
    exact ⟨p, h, List.sublist_append_left .., fun rest => rfl⟩
  | cons s names ih =>
    have hs : '/' ∉ s.toList := hnames s List.mem_cons_self
    have hhead := Text.head?_ne_slash hs
    have htext : p.stem.toList ++ slashed (s :: names) =
        p.stem.toList ++ (s.toList ++ ['/']) ++ slashed names := by simp
    rw [List.flatMap_cons, walk_append] at hw
    obtain ⟨k, hk, hw⟩ := bind_eq_ok hw
    have hempty : p = ⟨"."⟩ → s ≠ "" := fun hp he => hstart hp (by subst he; rfl)
    rw [htext] at hsub ⊢
    have hchild : t.Reached (p.child s) k :=
      h.child hs hempty hk (directory_of_walk hw hm) hfits
        ((List.sublist_append_left ..).trans hsub)
    have hstem : List.Sublist ((p.child s).stem.toList ++ slashed names)
        (p.stem.toList ++ (s.toList ++ ['/']) ++ slashed names) :=
      (Path.stem_child_sublist hhead p).append_right _
    -- The path is the point only as long as all pieces are points.
    have hstart' : p.child s = ⟨"."⟩ → (names.dropWhile (· = ".")).head? ≠ some "" := by
      intro hpoint
      rcases h.shape with rfl | hp
      · rw [Path.child_point] at hpoint
        obtain rfl : s = "." := congrArg Path.text hpoint
        exact hstart rfl
      · have hnot := Path.isHere_child hp (Path.steps_ne_nil h.fits.text_ne) hhead
        rw [hpoint, Path.isHere_point] at hnot
        cases hnot
    obtain ⟨q, hq, hqsub, hfind⟩ := ih hchild (fun s' hs' => hnames s' (List.mem_cons_of_mem s hs'))
      hstart' hw (hstem.trans hsub)
    refine ⟨q, hq, hqsub.trans hstem, fun rest => ?_⟩
    rw [List.map_cons, List.cons_append, find_plain_cons h hchild]
    exact hfind rest

/-- An empty piece behind points is found nowhere. -/
theorem find_lost (h : (names.dropWhile (· = ".")).head? = some "") (rest : List Segment) :
    t.find (names.map .plain ++ rest) ⟨"."⟩ = [] := by
  induction names with
  | nil => cases h
  | cons s names ih =>
    rw [List.map_cons, List.cons_append, find, Path.child_point]
    by_cases hs : s = "."
    · subst hs
      simp only [true_or, if_true, ih h, ite_self]
    · rw [List.dropWhile_cons_of_neg (by simpa using hs)] at h
      obtain rfl := Option.some.inj h
      have hnone : t.isThere ⟨""⟩ = false := rfl
      simp [hnone]

/-! ## 3. Files at any depth -/

/-- The name that a location ends in. -/
def nameOf (r : Location) : String := r.getLast?.getD ""

/-- What is below a directory is found by its path from there, if its name is one that is looked
for. -/
theorem find_below (h : t.Reached q l) (parts : List Wildcard) :
    t.find [.anyDepth, .wild parts] q =
      ((t.below l).filter fun x => Wildcard.covers parts (nameOf x.1).toList).map fun x =>
        x.1.foldl Path.child q := by
  rw [find, descendants, h.locate]
  simp only [h.directory, if_true, List.flatMap_map, findNamed, find, Segment.covers]
  induction t.below l with
  | nil => rfl
  | cons x xs ih =>
    rw [List.flatMap_cons, ih, List.filter_cons]
    by_cases hc : Wildcard.covers parts (nameOf x.1).toList = true
    · rw [if_pos hc]
      exact congrArg (· ++ _) (if_pos hc)
    · rw [if_neg hc]
      exact congrArg (· ++ _) (if_neg hc)

/-- By its path from a directory everything below it is reached. -/
theorem Reached.locate_below (h : t.Reached q l) (ht : t.Proper) {r : Location} (hr : r ≠ [])
    (hentry : t.entry? (l ++ r) ≠ none) (hfits : Fits (q.ground.down r)) :
    t.locate (r.foldl Path.child q) = .ok (l ++ r) := by
  have hnames : ∀ s ∈ r, IsName s := fun s hs => ht.names _ hentry s (List.mem_append_right l hs)
  have hwalk : t.walk l (r.map .name) = .ok (l ++ r) := by
    refine walk_names_eq_ok.mpr ⟨rfl, fun r' hr' hne => ?_, fun s hs => (hnames s hs).size⟩
    obtain ⟨r'', rfl⟩ := hr'
    rw [← List.append_assoc] at hentry
    exact ht.directory (fun he => hne (by rw [he, List.append_nil])) hentry
  rw [Path.foldl_child hr hnames]
  refine locate_eq hfits (endsInSlash_down hnames hr _) ?_
  rw [Path.steps_down (fun s hs => (hnames s hs).part), walk_append, h.walk_ground]
  exact hwalk

/-- **The files below a directory that have a name that is looked for are found**, each by its path
from there. -/
theorem find_files (h : t.Reached q l) (ht : t.Proper)
    (hfits : ∀ r, r ≠ [] → t.entry? (l ++ r) ≠ none → Fits (q.ground.down r))
    (parts : List Wildcard) :
    (t.find [.anyDepth, .wild parts] q).filter t.isFile =
      ((t.filesBelow l).filter fun x => Wildcard.covers parts (nameOf x.1).toList).map fun x =>
        x.1.foldl Path.child q := by
  have hfile : ∀ x ∈ t.below l, t.isFile (x.1.foldl Path.child q) = x.2.bytes?.isSome := by
    rintro ⟨r, e⟩ hx
    obtain ⟨hr, hentry⟩ := mem_below.mp hx
    have hsome : t.entry? (l ++ r) ≠ none := by simp [hentry]
    rw [isFile, look_of_locate (h.locate_below ht hr hsome (hfits r hr hsome)) hentry]
    cases e <;> rfl
  rw [find_below h, filesBelow]
  generalize t.below l = xs at hfile
  induction xs with
  | nil => rfl
  | cons x xs ih =>
    obtain ⟨r, e⟩ := x
    have hrest := ih fun y hy => hfile y (List.mem_cons_of_mem _ hy)
    have hx : t.isFile (r.foldl Path.child q) = e.bytes?.isSome := hfile (r, e) List.mem_cons_self
    cases hc : Wildcard.covers parts (nameOf r).toList with
    | false => cases e <;> simpa [hc, Entry.bytes?] using hrest
    -- A directory of such a name is found, too, but it is no file.
    | true => cases e <;> simpa [hc, hx, Entry.bytes?] using hrest

/-! ## 4. The way of a directory -/

/-- A pattern begins where the path of a directory does, and its pieces lead on from there. -/
theorem exists_start {dir : Path} (hdir : t.locate dir = .ok l) :
    ∃ m, t.Reached dir.start m ∧
      t.walk m (dir.pieces.flatMap fun s => Path.partsOf s.toList) = .ok l := by
  obtain ⟨hfits, hwalk⟩ := place_eq_ok.mp (locate_eq_ok.mp hdir).1
  have hhere : t.entry? t.here = some .directory := by
    obtain ⟨c, cs, hc⟩ := List.exists_cons_of_ne_nil (Path.steps_ne_nil hfits.text_ne)
    rw [hc] at hwalk
    exact (walk_cons_eq_ok.mp hwalk).1
  rw [Path.steps_pieces hfits.text_ne] at hwalk
  unfold Path.start
  by_cases hlead : dir.lead = []
  · rw [if_pos hlead, List.nil_append] at hwalk
    rw [if_pos hlead]
    refine ⟨t.here, ⟨.inl rfl, by decide +kernel, ?_, hhere⟩, hwalk⟩
    exact walk_cons_eq_ok.mpr ⟨hhere, nofun, rfl⟩
  · rw [if_neg hlead] at hwalk
    rw [if_neg hlead]
    refine ⟨[], ⟨.inr (by decide +kernel), by decide +kernel, ?_, rfl⟩,
      (walk_cons_eq_ok.mp hwalk).2.2⟩
    exact walk_cons_eq_ok.mpr ⟨hhere, nofun, rfl⟩

end FileTree

end ScriptPlugins
