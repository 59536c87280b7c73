import Mathlib.Data.Set.Basic
import ScriptPlugins.Proofs.Cache.Entries
import ScriptPlugins.Proofs.Job.Preserving

/-!
# Housing — where a cache lies, and how it is emptied

Both roots of a cache lie apart.  Their paths lead to them whatever happens at the roots or below
them, so that they can be removed and made again.
-/

namespace ScriptPlugins

open FileTree

/-! ## 1. Owners below roots -/

/-- What lies directly below a root, or below that, belongs to the name that the root makes of
it. -/
def ownerBelow : List (Location × (String → Option String)) → Location → Option String
  | [], _ => none
  | (root, named) :: roots, l =>
    if root.isPrefixOf l then l[root.length]?.bind named else ownerBelow roots l

theorem ownerBelow_head {root : Location} {named : String → Option String}
    {roots : List (Location × (String → Option String))} (n : String) (r : Location) :
    ownerBelow ((root, named) :: roots) (root ++ n :: r) = named n := by
  rw [ownerBelow, if_pos (List.isPrefixOf_iff_prefix.mpr (List.prefix_append _ _)),
    List.getElem?_append_right (Nat.le_refl _), Nat.sub_self]
  rfl

theorem ownerBelow_tail {root l : Location} {named : String → Option String}
    {roots : List (Location × (String → Option String))} (h : ¬root <+: l) :
    ownerBelow ((root, named) :: roots) l = ownerBelow roots l := by
  rw [ownerBelow, if_neg fun hp => h (List.isPrefixOf_iff_prefix.mp hp)]

theorem not_prefix_append {l m : Location} (h : ¬l <+: m) (h' : ¬m <+: l) (r : Location) :
    ¬l <+: m ++ r := by
  intro hp
  rcases List.prefix_or_prefix_of_prefix hp (List.prefix_append m r) with hlm | hml
  · exact h hlm
  · exact h' hml

/-- What is owned lies below a root. -/
theorem inside_of_ownerBelow {roots : List (Location × (String → Option String))} {l : Location}
    {n : String} (h : ownerBelow roots l = some n) : ∃ root ∈ roots, l ∈ inside root.1 := by
  induction roots with
  | nil => cases h
  | cons root roots ih =>
    obtain ⟨root, named⟩ := root
    rw [ownerBelow] at h
    split at h
    next hp =>
      refine ⟨_, List.mem_cons_self, List.isPrefixOf_iff_prefix.mp hp, ?_⟩
      rintro rfl
      rw [List.getElem?_eq_none (Nat.le_refl _)] at h
      cases h
    next =>
      obtain ⟨root', hmem, hin⟩ := ih h
      exact ⟨root', List.mem_cons_of_mem _ hmem, hin⟩

/-! ## 2. Roots of a cache -/

/-- A path that names a directory by its last step. -/
structure NamesRoot (p : Path) : Prop where
  fits : Fits p
  noSlash : p.endsInSlash = false
  name : ∃ s, p.steps.getLast? = some (.name s)

/-- Both paths of a cache lead to roots that lie apart, whatever stands there. -/
structure Cache.Housed (c : Cache) (C M : Location) (t : FileTree) : Prop where
  classesPath : NamesRoot c.classesRoot
  metadataPath : NamesRoot c.metadataRoot
  classesLeads : ∀ t', SameOutside (subtree C ∪ subtree M) t t' →
    t'.walk t'.here c.classesRoot.steps = .ok C
  metadataLeads : ∀ t', SameOutside (subtree C ∪ subtree M) t t' →
    t'.walk t'.here c.metadataRoot.steps = .ok M
  apart : ¬C <+: M
  apart' : ¬M <+: C

namespace Cache.Housed

variable {c : Cache} {C M : Location} {t t' : FileTree}

theorem stays (h : c.Housed C M t) (hs : SameOutside (subtree C ∪ subtree M) t t') :
    c.Housed C M t' :=
  ⟨h.classesPath, h.metadataPath, fun t'' h' => h.classesLeads t'' (hs.trans h'),
    fun t'' h' => h.metadataLeads t'' (hs.trans h'), h.apart, h.apart'⟩

theorem classes_ne (h : c.Housed C M t) : C ≠ [] := fun he => h.apart (he ▸ List.nil_prefix)

theorem metadata_ne (h : c.Housed C M t) : M ≠ [] := fun he => h.apart' (he ▸ List.nil_prefix)

end Cache.Housed

/-- What lies below the roots of a cache belongs to the names of its entries. -/
def Cache.owning (C M : Location) (scope : Nat) : Owning :=
  ⟨ownerBelow [(C, some), (M, some)], scope, Set.univ⟩

namespace Cache

variable {c : Cache} {C M : Location} {t t' : FileTree} {scope : Nat}

theorem Housed.seat (h : c.Housed C M t) (scope : Nat) : Seat (owning C M scope) C M Set.univ where
  classes n _ r := ownerBelow_head n r
  metadata n _ r :=
    (ownerBelow_tail (not_prefix_append h.apart h.apart' _)).trans (ownerBelow_head n r)
  names := Set.subset_univ _
  apart := h.apart
  apart' := h.apart'

theorem owned_owning {l : Location} (h : l ∈ owned (owning C M scope) C M) :
    l ∈ inside C ∨ l ∈ inside M := by
  rcases h with ⟨n, -, hn⟩ | h
  case inr => exact h
  obtain ⟨root, hroot, hin⟩ := inside_of_ownerBelow hn
  simp only [List.mem_cons, List.not_mem_nil, or_false] at hroot
  rcases hroot with rfl | rfl
  · exact .inl hin
  · exact .inr hin

/-- Which scope the classes are exported to does not matter to the files. -/
theorem Shelf.rescope {K : Set String} {boxes : String → Boxes}
    (h : c.Shelf (owning C M scope) C M K boxes t) (scope' : Nat) :
    c.Shelf (owning C M scope') C M K boxes t :=
      ⟨h.classesRoot, h.metadataRoot, h.classes, h.metadata⟩

theorem owned_subset : owned (owning C M scope) C M ⊆ subtree C ∪ subtree M := fun _ h =>
  (owned_owning h).imp (fun h => h.1) (fun h => h.1)

theorem Housed.standing_classes (h : c.Housed C M t) (hd : t.entry? C = some .directory) :
    Standing (owned (owning C M scope) C M) t c.classesRoot C where
  leads t' hs := h.classesLeads t' (hs.mono owned_subset)
  directory := hd
  outside hm := by
    rcases owned_owning hm with hm | hm
    · exact hm.2 rfl
    · exact h.apart' hm.1
  below _ hl := .inr (.inl hl)

theorem Housed.standing_metadata (h : c.Housed C M t) (hd : t.entry? M = some .directory) :
    Standing (owned (owning C M scope) C M) t c.metadataRoot M where
  leads t' hs := h.metadataLeads t' (hs.mono owned_subset)
  directory := hd
  outside hm := by
    rcases owned_owning hm with hm | hm
    · exact h.apart hm.1
    · exact hm.2 rfl
  below _ hl := .inr (.inr hl)

end Cache

/-! ## 3. Emptying a root -/

/-- A directory that holds nothing. -/
structure FileTree.EmptyAt (t : FileTree) (l : Location) : Prop where
  directory : t.entry? l = some .directory
  empty : ∀ s r, t.entry? (l ++ s :: r) = none

/-- A directory is removed, or was not there. -/
theorem run_removeIfThere {w : World} {dir : Path} {reply : Except FileError Unit} {t : FileTree}
    (h : w.files.removeDirectory dir = (reply, t))
    (hreply : reply = .ok () ∨ reply = .error .notFound) :
    Job.run (removeIfThere dir).run w = (.ok (), { w with files := t }) := by
  have h' : w.files.apply (.removeDirectory dir) = (reply, t) := h
  rcases hreply with rfl | rfl
  · exact Attempt.run_bind_ok (Attempt.run_lift (Attempt.run_change h'))
  · exact Attempt.run_bind_ok (Attempt.run_lift (Attempt.run_change h'))

/-- A directory is removed unless that is refused, and what is missing needs no removal. -/
theorem run_removeIfThere_cases (dir : Path) (w : World) :
    ∃ reply answer files, w.files.removeDirectory dir = (reply, files) ∧
      Job.run (removeIfThere dir).run w = (answer, { w with files }) ∧
      (answer = .ok () → reply = .ok () ∨ reply = .error .notFound) := by
  obtain ⟨reply, t, ht⟩ : ∃ reply t, w.files.removeDirectory dir = (reply, t) := ⟨_, _, rfl⟩
  by_cases hreply : reply = .ok () ∨ reply = .error .notFound
  · exact ⟨reply, .ok (), t, ht, run_removeIfThere ht hreply, fun _ => hreply⟩
  · cases reply with
    | ok u => exact absurd (.inl rfl) hreply
    | error e =>
      have happly : w.files.apply (.removeDirectory dir) = (.error e, t) := ht
      refine ⟨.error e, .error (.files dir e), t, ht, ?_, nofun⟩
      cases e with
      | notFound => exact absurd (.inr rfl) hreply
      | _ => exact Attempt.run_bind_ok (Attempt.run_lift (Attempt.run_change happly))

theorem run_makeDirectories {w : World} {dir : Path} {t : FileTree}
    (h : w.files.makeDirectories dir = (.ok (), t)) :
    Job.run (makeDirectories dir).run w = (.ok (), { w with files := t }) :=
  have h' : w.files.apply (.makeDirectories dir) = (.ok (), t) := h
  Attempt.run_change h'

/-- A root is removed and made again, with nothing in it. -/
theorem FileTree.reset_root {t : FileTree} {p : Path} {l : Location} (hp : NamesRoot p)
    (hne : l ≠ []) (hl : ∀ t', SameOutside (subtree l) t t' → t'.walk t'.here p.steps = .ok l)
    (hd : t.entry? l = some .directory) :
    ∃ t₁ t₂, t.removeDirectory p = (.ok (), t₁) ∧ t₁.makeDirectories p = (.ok (), t₂) ∧
      SameOutside (subtree l) t t₂ ∧ t₂.EmptyAt l := by
  have herase : SameOutside (subtree l) t (t.eraseBelow l) :=
    (sameOutside_eraseBelow t l).mono fun _ h => h.1
  obtain ⟨t₁, ht₁, hrem⟩ := removeDirectory_of_walk hp.fits hp.noSlash hp.name hne hd
    (hl t (.refl _ t)) (hl _ herase)
  have hsame : SameOutside (subtree l) t t₁ := ⟨hrem.here, fun k hk => hrem.others k hk⟩
  have hgone : t₁.entry? l = none := by simpa using hrem.gone []
  have hplace : t₁.place p = .ok l := place_eq hp.fits (hl t₁ hsame)
  refine ⟨t₁, _, ht₁, makeDirectories_of_place hp.fits.text_ne hplace hgone,
    hsame.trans (.put hne _ (List.prefix_refl l)), entry?_put_self _ hne _, fun s r => ?_⟩
  rw [entry?_put_of_ne _ hne _ (by simp), hrem.gone]

namespace Cache

variable {c : Cache} {C M : Location} {t : FileTree} {w : World} {scope : Nat}

/-- Nothing stands for any name below roots that hold nothing. -/
theorem Housed.shelf (h : c.Housed C M t) (hC : t.EmptyAt C) (hM : t.EmptyAt M) :
    c.Shelf (owning C M scope) C M Set.univ (fun _ => .none) t where
  classesRoot := h.standing_classes hC.directory
  metadataRoot := h.standing_metadata hM.directory
  classes n _ r := by
    rw [List.append_assoc]
    exact (hC.empty n r).trans (Box.entry?_missing ..).symm
  metadata n _ r := by
    rw [List.append_assoc]
    exact (hM.empty n r).trans (Box.entry?_missing ..).symm

/-- Roots that are there are not made again. -/
theorem Housed.run_create (h : c.Housed C M w.files) (hC : w.files.entry? C = some .directory)
    (hM : w.files.entry? M = some .directory) : Job.run c.create.run w = (.ok (), w) := by
  have hwalkC := h.classesLeads _ (.refl _ w.files)
  have hwalkM := h.metadataLeads _ (.refl _ w.files)
  have h₁ : w.files.makeDirectories c.classesRoot = (.ok (), w.files) :=
    makeDirectories_there h.classesPath.fits.text_ne (place_eq h.classesPath.fits hwalkC)
      (locate_eq h.classesPath.fits h.classesPath.noSlash hwalkC) hC
  have h₂ : w.files.makeDirectories c.metadataRoot = (.ok (), w.files) :=
    makeDirectories_there h.metadataPath.fits.text_ne (place_eq h.metadataPath.fits hwalkM)
      (locate_eq h.metadataPath.fits h.metadataPath.noSlash hwalkM) hM
  rw [create, Attempt.run_bind_ok (run_makeDirectories h₁), run_makeDirectories h₂]

/-- **Cleaning leaves both roots with nothing in them**, and everything else as it was. -/
theorem Housed.run_clean (h : c.Housed C M w.files) (hC : w.files.entry? C = some .directory)
    (hM : w.files.entry? M = some .directory) :
    ∃ t, Job.run c.clean.run w = (.ok (), { w with files := t }) ∧
      SameOutside (subtree C ∪ subtree M) w.files t ∧ t.EmptyAt C ∧ t.EmptyAt M := by
  obtain ⟨t₁, t₂, h₁, h₂, hs₂, he₂⟩ := FileTree.reset_root h.classesPath h.classes_ne
    (fun t' hs => h.classesLeads t' (hs.mono Set.subset_union_left)) hC
  have hM₂ : t₂.entry? M = some .directory := (hs₂.entries M h.apart).trans hM
  have hh₂ := h.stays (hs₂.mono Set.subset_union_left)
  obtain ⟨t₃, t₄, h₃, h₄, hs₄, he₄⟩ := FileTree.reset_root hh₂.metadataPath hh₂.metadata_ne
    (fun t' hs => hh₂.metadataLeads t' (hs.mono Set.subset_union_right)) hM₂
  refine ⟨t₄, ?_, (hs₂.mono Set.subset_union_left).trans (hs₄.mono Set.subset_union_right), ?_, he₄⟩
  · rw [clean, Attempt.run_bind_ok (run_removeIfThere h₁ (.inl rfl)), Attempt.run_bind_ok
      (run_makeDirectories h₂), Attempt.run_bind_ok (run_removeIfThere h₃ (.inl rfl)),
      run_makeDirectories h₄]
  · refine ⟨(hs₄.entries C h.apart').trans he₂.directory, fun s r => ?_⟩
    rw [hs₄.entries _ (not_prefix_append h.apart' h.apart _), he₂.empty]

end Cache

end ScriptPlugins
