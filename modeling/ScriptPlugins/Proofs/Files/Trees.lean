import Mathlib.Data.Set.Basic
import Mathlib.Data.List.Infix
import ScriptPlugins.Proofs.Files.Paths
import ScriptPlugins.Text.Bytes

/-!
# Trees — what changes of a tree do to its entries, and where paths lead

Everything about a tree is told by its entries.  A path is *standing* at a directory if it leads
there whatever happens inside a region, as below a directory that a program keeps for itself.
-/

namespace ScriptPlugins.FileTree

/-! ## 1. Entries -/

@[simp] theorem entry?_nil (t : FileTree) : t.entry? [] = some .directory := rfl

theorem entry?_of_ne_nil (t : FileTree) {l : Location} (h : l ≠ []) :
    t.entry? l = t.entries[l]? := if_neg h

/-- Nothing stands below the root of the empty tree. -/
theorem entry?_empty (l : Location) :
    entry? (.empty []) l = if l = [] then some .directory else none := by
  split
  next h => rw [h, entry?_nil]
  next h =>
    rw [entry?_of_ne_nil _ h]
    exact Std.ExtTreeMap.getElem?_empty

theorem compare_eq_iff_eq_comm (l m : Location) : compare l m = .eq ↔ m = l :=
  Std.LawfulEqCmp.compare_eq_iff_eq.trans eq_comm

theorem entry?_put (t : FileTree) {l : Location} (h : l ≠ []) (e : Entry) (m : Location) :
    entry? (t.put l e) m = if m = l then some e else t.entry? m := by
  by_cases hm : m = []
  · subst hm
    rw [entry?_nil, entry?_nil, if_neg (Ne.symm h)]
  · rw [entry?_of_ne_nil _ hm, entry?_of_ne_nil _ hm, put, Std.ExtTreeMap.getElem?_insert]
    simp only [compare_eq_iff_eq_comm]

theorem entry?_put_self (t : FileTree) {l : Location} (h : l ≠ []) (e : Entry) :
    entry? (t.put l e) l = some e := by rw [entry?_put t h, if_pos rfl]

theorem entry?_put_of_ne (t : FileTree) {l m : Location} (h : l ≠ []) (e : Entry) (hm : m ≠ l) :
    entry? (t.put l e) m = t.entry? m := by rw [entry?_put t h, if_neg hm]

theorem entry?_erase (t : FileTree) {l : Location} (h : l ≠ []) (m : Location) :
    entry? (t.erase l) m = if m = l then none else t.entry? m := by
  by_cases hm : m = []
  · subst hm
    rw [entry?_nil, entry?_nil, if_neg (Ne.symm h)]
  · rw [entry?_of_ne_nil _ hm, entry?_of_ne_nil _ hm, erase, Std.ExtTreeMap.getElem?_erase]
    simp only [compare_eq_iff_eq_comm]

theorem entry?_eraseBelow (t : FileTree) (l m : Location) :
    entry? (t.eraseBelow l) m = if l <+: m ∧ l ≠ m then none else t.entry? m := by
  by_cases hm : m = []
  · subst hm
    rw [entry?_nil, entry?_nil, if_neg]
    rintro ⟨h, hne⟩
    exact hne (List.prefix_nil.mp h)
  · rw [entry?_of_ne_nil _ hm, entry?_of_ne_nil _ hm, eraseBelow, Std.ExtTreeMap.getElem?_filter']
    have hb : (!(l.isPrefixOf m && decide (l ≠ m))) = true ↔ ¬(l <+: m ∧ l ≠ m) := by
      rw [Bool.not_eq_true', ← Bool.not_eq_true, Bool.and_eq_true, List.isPrefixOf_iff_prefix,
        decide_eq_true_eq]
    cases t.entries[m]? with
    | none => simp
    | some e =>
      by_cases h : l <+: m ∧ l ≠ m
      · rw [if_pos h, Option.filter, if_neg fun hf => hb.mp hf h]
      · rw [if_neg h, Option.filter, if_pos (hb.mpr h)]

/-! ## 2. Walking -/

theorem walk_append (t : FileTree) (l : Location) (as bs : List Component) :
    t.walk l (as ++ bs) = t.walk l as >>= fun m => t.walk m bs := by
  induction as generalizing l with
  | nil => rfl
  | cons a as ih =>
    rw [List.cons_append, walk.eq_def, walk.eq_def t l (a :: as)]
    simp only
    cases t.enter l with
    | error e => rfl
    | ok u =>
      cases a with
      | root => exact ih []
      | here => exact ih l
      | up => exact ih l.dropLast
      | name s =>
        show (if nameLimit < s.utf8ByteSize then Except.error _ else t.walk (l ++ [s]) (as ++ bs)) =
          (if nameLimit < s.utf8ByteSize then Except.error _ else t.walk (l ++ [s]) as) >>= _
        split
        · rfl
        · exact ih (l ++ [s])

theorem enter_directory {t : FileTree} {l : Location} (h : t.entry? l = some .directory) :
    t.enter l = .ok () := by rw [enter, h]

theorem enter_missing {t : FileTree} {l : Location} (h : t.entry? l = none) :
    t.enter l = .error .notFound := by rw [enter, h]

theorem walk_name {t : FileTree} {l : Location} (h : t.entry? l = some .directory) {s : String}
    (hs : IsName s) : t.walk l [.name s] = .ok (l ++ [s]) := by
  rw [walk, enter_directory h]
  show (if nameLimit < s.utf8ByteSize then Except.error _ else t.walk (l ++ [s]) []) = _
  rw [if_neg (Nat.not_lt.mpr hs.size), walk]

theorem walk_name_missing {t : FileTree} {l : Location} (h : t.entry? l = none) (s : String) :
    t.walk l [.name s] = .error .notFound := by
  rw [walk, enter_missing h]
  rfl

/-- Two trees with the same entries outside a region. -/
structure SameOutside (S : Set Location) (t t' : FileTree) : Prop where
  here : t'.here = t.here
  entries : ∀ l, l ∉ S → t'.entry? l = t.entry? l

namespace SameOutside

variable {S S' : Set Location} {t t' t'' : FileTree}

theorem refl (S : Set Location) (t : FileTree) : SameOutside S t t := ⟨rfl, fun _ _ => rfl⟩

theorem trans (h : SameOutside S t t') (h' : SameOutside S t' t'') : SameOutside S t t'' :=
  ⟨h'.here.trans h.here, fun l hl => (h'.entries l hl).trans (h.entries l hl)⟩

theorem mono (h : SameOutside S t t') (hs : S ⊆ S') : SameOutside S' t t' :=
  ⟨h.here, fun l hl => h.entries l fun hm => hl (hs hm)⟩

theorem put {l : Location} (hl : l ≠ []) (e : Entry) (hm : l ∈ S) : SameOutside S t (t.put l e) :=
  ⟨rfl, fun _ h => entry?_put_of_ne t hl e fun he => h (he ▸ hm)⟩

end SameOutside

/-- The region strictly below a location. -/
def inside (l : Location) : Set Location := {m | l <+: m ∧ l ≠ m}

theorem mem_inside {l r : Location} (h : r ≠ []) : l ++ r ∈ inside l :=
  ⟨List.prefix_append l r, fun he => h (List.append_right_eq_self.mp he.symm)⟩

theorem exists_of_mem_inside {l m : Location} (h : m ∈ inside l) : ∃ s r, m = l ++ s :: r := by
  obtain ⟨⟨r, rfl⟩, hne⟩ := h
  cases r with
  | nil => exact absurd (List.append_nil l).symm hne
  | cons s r => exact ⟨s, r, rfl⟩

/-- A path that leads to a directory whatever happens inside a region, which holds everything below
this directory. -/
structure Standing (S : Set Location) (t : FileTree) (p : Path) (l : Location) : Prop where
  leads : ∀ t', SameOutside S t t' → t'.walk t'.here p.steps = .ok l
  directory : t.entry? l = some .directory
  outside : l ∉ S
  below : inside l ⊆ S

namespace Standing

variable {S S' : Set Location} {t t' : FileTree} {p : Path} {l : Location}

theorem walk (h : Standing S t p l) : t.walk t.here p.steps = .ok l := h.leads t (.refl S t)

theorem stays (h : Standing S t p l) (hs : SameOutside S t t') : Standing S t' p l :=
  ⟨fun t'' h' => h.leads t'' (hs.trans h'), (hs.entries l h.outside).trans h.directory, h.outside,
    h.below⟩

end Standing

/-! ## 3. Places -/

/-- A path whose text can be one. -/
def Fits (p : Path) : Prop := checkText p = .ok ()

instance (p : Path) : Decidable (Fits p) := inferInstanceAs (Decidable (_ = _))

theorem Fits.text_ne {p : Path} (h : Fits p) : p.text ≠ "" := by
  intro he
  rw [Fits, checkText, he] at h
  simp at h

theorem fits_iff {p : Path} : Fits p ↔
    '\x00' ∉ p.text.toList ∧ p.text ≠ "" ∧ p.text.utf8ByteSize ≤ pathLimit := by
  rw [Fits, checkText]
  split
  next h => simp [h]
  next h =>
    split
    next he => simp [he]
    next he =>
      split
      next hl => simp [h, he, Nat.not_le.mpr hl]
      next hl => simp [h, he, Nat.not_lt.mp hl]

/-- A path fits if one does that has its text and more. -/
theorem Fits.of_sublist {p q : Path} (h : Fits q) (hp : p.text ≠ "")
    (hsub : List.Sublist p.text.toList q.text.toList) : Fits p := by
  obtain ⟨hnul, -, hsize⟩ := fits_iff.mp h
  rw [← Text.byteSize_toList] at hsize
  refine fits_iff.mpr ⟨fun hm => hnul (hsub.subset hm), hp, ?_⟩
  rw [← Text.byteSize_toList]
  exact (Text.byteSize_le_of_sublist hsub).trans hsize

/-- The beginning of a path that fits does so too. -/
theorem Fits.of_join {p : Path} {s : String} (hs : '/' ∉ s.toList) (hp : p.text ≠ "")
    (h : Fits (p.join s)) : Fits p := by
  refine h.of_sublist hp ?_
  rw [Path.text_join hs]
  split
  · rw [String.toList_append]
    exact List.sublist_append_left ..
  · rw [String.toList_append, String.toList_append, List.append_assoc]
    exact List.sublist_append_left ..

theorem place_eq {t : FileTree} {p : Path} {r : Except FileError Location} (hp : Fits p)
    (h : t.walk t.here p.steps = r) : t.place p = r := by
  rw [place, hp]
  exact h

theorem locate_eq {t : FileTree} {p : Path} {r : Except FileError Location} (hp : Fits p)
    (hs : p.endsInSlash = false) (h : t.walk t.here p.steps = r) : t.locate p = r := by
  rw [locate, hp, hs]
  exact h

end ScriptPlugins.FileTree
