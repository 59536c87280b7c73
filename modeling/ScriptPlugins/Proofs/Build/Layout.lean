import ScriptPlugins.Batch.Package
import ScriptPlugins.Proofs.Cache.Housing

/-!
# Layouts — where the directories of a build lie, and how they are made anew

Everything lies below one root.  The roots of the cache and the directories for what is packaged lie
apart from each other.
-/

namespace ScriptPlugins

open FileTree

/-! ## 1. Locations -/

namespace BuildLayout

def classesNames : List String := ["compiled-scripts", "classes"]

def metadataNames : List String := ["compiled-scripts", "metadata"]

def packagedNames : List String := ["generated-classes", "script-plugins", "classes"]

def adaptersNames : List String := ["generated-classes", "script-plugins", "adapters"]

variable (b : BuildLayout)

theorem outputClasses_eq : b.outputClasses = b.root.down packagedNames := rfl

theorem adapters_eq : b.adapters = b.root.down adaptersNames := rfl

/-- The directories of a build have paths that the system takes. -/
structure Fitting : Prop where
  classes : Fits b.cachedClasses
  metadata : Fits b.cachedMetadata
  packaged : Fits b.outputClasses
  inPackaged : Fits (b.outputClasses.join "")
  inMetadata : Fits ((b.outputClasses.join packagedMetadata).join "")
  adapters : Fits b.adapters

instance : Decidable b.Fitting :=
  decidable_of_iff (Fits b.cachedClasses ∧ Fits b.cachedMetadata ∧ Fits b.outputClasses ∧
    Fits (b.outputClasses.join "") ∧
    Fits ((b.outputClasses.join packagedMetadata).join "") ∧ Fits b.adapters)
    ⟨fun ⟨h₁, h₂, h₃, h₄, h₅, h₆⟩ => ⟨h₁, h₂, h₃, h₄, h₅, h₆⟩,
      fun ⟨h₁, h₂, h₃, h₄, h₅, h₆⟩ => ⟨h₁, h₂, h₃, h₄, h₅, h₆⟩⟩

variable {b} in
/-- A build whose root leaves room has paths that the system takes. -/
theorem Fitting.of_room (h : Room b.root 1024) : b.Fitting := by
  have hcache : Room (b.root.join "compiled-scripts") 1000 :=
    h.join (by decide +kernel) (by decide +kernel)
  have houtput : Room b.output 990 :=
    (h.join (m := 1006) (by decide +kernel) (by decide +kernel)).join (by decide +kernel)
      (by decide +kernel)
  have hclasses : Room b.outputClasses 980 := houtput.join (by decide +kernel) (by decide +kernel)
  exact {
    classes := (hcache.join (m := 0) (by decide +kernel) (by decide +kernel)).fits
    metadata := (hcache.join (m := 0) (by decide +kernel) (by decide +kernel)).fits
    packaged := hclasses.fits
    inPackaged := (hclasses.join (m := 0) (by decide +kernel) (by decide +kernel)).fits
    inMetadata :=
      ((hclasses.join (m := 970) (by decide +kernel) (by decide +kernel)).join (m := 0)
        (by decide +kernel)
      (by decide +kernel)).fits
    adapters := (houtput.join (m := 0) (by decide +kernel) (by decide +kernel)).fits }

end BuildLayout

/-- Locations lie apart if the names that lead to them from a common one do. -/
theorem not_prefix_at {ss ss' : List String} (h : ¬ss <+: ss') (l : Location) :
    ¬l ++ ss <+: l ++ ss' := fun hp => h ((List.prefix_append_right_inj l).mp hp)

/-- What lies below one of two locations that lie apart does not lie below the other one. -/
theorem not_mem_subtree {l m : Location} (h : ¬l <+: m) (h' : ¬m <+: l) {r : Location} :
    m ++ r ∉ subtree l := not_prefix_append h h' r

/-- What lies between is none of what lies below a location apart. -/
theorem not_mem_subtree_between {l k : Location} {ss : List String} (h : ¬k <+: l ++ ss)
    {m : Location} (hm : m ∈ between l ss) : m ∉ subtree k := fun hk => h (hk.trans hm.2)

theorem inside_append_subset (l : Location) (ss : List String) : inside (l ++ ss) ⊆ inside l := by
  rintro m ⟨hp, hne⟩
  refine ⟨(List.prefix_append l ss).trans hp, ?_⟩
  rintro rfl
  exact hne (hp.eq_of_length_le (by simp))

/-- What may change while the cache of a build is used and adapters are written. -/
def BuildLayout.Reaches (S : Set Location) (L : Location) : Prop :=
  ∀ l ∈ S, l ∈ inside (L ++ classesNames) ∨ l ∈ inside (L ++ metadataNames) ∨
    l ∈ inside (L ++ adaptersNames)

theorem BuildLayout.Reaches.subset {S : Set Location} {L : Location} (h : Reaches S L) :
    S ⊆ inside L := by
  intro l hl
  rcases h l hl with h | h | h <;> exact inside_append_subset _ _ h

/-! ## 2. Directories made anew -/

namespace FileTree

variable {S : Set Location} {t t' : FileTree} {p : Path} {l : Location} {ss : List String}

/-- Nothing but directories on the way to a directory, and nothing in it unless it is there. -/
structure Tidy (l : Location) (ss : List String) (t : FileTree) : Prop where
  clear : ∀ m ∈ between l ss, t.entry? m = none ∨ t.entry? m = some .directory
  hollow : (∃ m ∈ between l ss, t.entry? m = none) → ∀ r, t.entry? (l ++ ss ++ r) = none

theorem Tidy.same (h : Tidy l ss t) (hbetween : ∀ m ∈ between l ss, t'.entry? m = t.entry? m)
    (hbelow : ∀ r, t'.entry? (l ++ ss ++ r) = t.entry? (l ++ ss ++ r)) : Tidy l ss t' :=
  ⟨fun m hm => hbetween m hm ▸ h.clear m hm, fun ⟨m, hm, hnone⟩ r =>
    (hbelow r).trans (h.hollow ⟨m, hm, (hbetween m hm).symm.trans hnone⟩ r)⟩

/-- A directory with all those on the way to it. -/
def Paved (l : Location) (ss : List String) (t : FileTree) : Prop :=
  ∀ m ∈ between l ss, t.entry? m = some .directory

theorem Paved.tidy (h : Paved l ss t) : Tidy l ss t :=
  ⟨fun m hm => .inr (h m hm), fun ⟨m, hm, hnone⟩ => by rw [h m hm] at hnone; cases hnone⟩

theorem Paved.way (h : Paved l ss t) : Way t l ss := fun m hm _ => h m hm

theorem Paved.directory (h : Paved l ss t) (hne : ss ≠ []) : t.entry? (l ++ ss) = some .directory :=
  h _ ⟨mem_inside hne, List.prefix_refl _⟩

/-- **A directory is made anew**, with nothing in it, and nothing but the way to it changes. -/
theorem reset_down (hp : Standing S t p l) (hn : ∀ s ∈ ss, IsName s) (hne : ss ≠ [])
    (hfit : Fits (p.down ss)) (htidy : Tidy l ss t) :
    ∃ reply t₁ t₂, t.removeDirectory (p.down ss) = (reply, t₁) ∧
      (reply = .ok () ∨ reply = .error .notFound) ∧
      t₁.makeDirectories (p.down ss) = (.ok (), t₂) ∧
      SameOutside (subtree (l ++ ss) ∪ between l ss) t t₂ ∧ t₂.EmptyAt (l ++ ss) ∧
        Paved l ss t₂ := by
  have hlast : l ++ ss ∈ between l ss := ⟨mem_inside hne, List.prefix_refl _⟩
  have hbelow (s : String) (r : Location) : l ++ ss ++ s :: r ∉ between l ss := fun h => by
    have hlen := h.2.length_le
    simp only [List.length_append, List.length_cons] at hlen
    omega
  -- With a gap on the way nothing can be there; otherwise what is there is removed first.
  by_cases hmiss : ∃ m ∈ between l ss, t.entry? m = none
  · obtain ⟨t₂, ht₂, hmade⟩ := makeDirectories_down hp hn hne hfit htidy.clear
    refine ⟨_, t, t₂, removeDirectory_missing hp hn hne hfit htidy.clear hmiss, .inr rfl, ht₂,
      ⟨hmade.here, fun m hm => hmade.others m fun hb => hm (.inr hb)⟩,
      ⟨hmade.made _ hlast, fun s r => ?_⟩, hmade.made⟩
    rw [hmade.others _ (hbelow s r), htidy.hollow hmiss]
  · have hpaved : Paved l ss t := fun m hm =>
      (htidy.clear m hm).resolve_left fun h => hmiss ⟨m, hm, h⟩
    obtain ⟨t₁, ht₁, hrem⟩ := removeDirectory_there hp hn hne hfit hpaved.way (hpaved.directory hne)
    have hp₁ : Standing S t₁ p l := hp.stays ((hrem.sameOutside hne).mono hp.below)
    have hclear : ∀ m ∈ between l ss, t₁.entry? m = none ∨ t₁.entry? m = some .directory := by
      intro m hm
      by_cases he : l ++ ss <+: m
      · rw [← he.eq_of_length_le hm.2.length_le, ← List.append_nil (l ++ ss), hrem.gone]
        exact .inl rfl
      · rw [hrem.others m he, hpaved m hm]
        exact .inr rfl
    obtain ⟨t₂, ht₂, hmade⟩ := makeDirectories_down hp₁ hn hne hfit hclear
    refine ⟨_, t₁, t₂, ht₁, .inl rfl, ht₂, ⟨hmade.here.trans hrem.here, fun m hm => ?_⟩,
      ⟨hmade.made _ hlast, fun s r => ?_⟩, hmade.made⟩
    · rw [hmade.others m fun hb => hm (.inr hb), hrem.others m fun hs => hm (.inl hs)]
    · rw [hmade.others _ (hbelow s r), hrem.gone]

end FileTree

theorem run_resetDirectory_of {w : World} {dir : Path} {reply : Except FileError Unit}
    {t₁ t₂ : FileTree}
    (h₁ : w.files.removeDirectory dir = (reply, t₁))
    (hreply : reply = .ok () ∨ reply = .error .notFound)
    (h₂ : t₁.makeDirectories dir = (.ok (), t₂)) :
    Job.run (resetDirectory dir).run w = (.ok (), { w with files := t₂ }) := by
  rw [resetDirectory, Attempt.run_bind_ok (run_removeIfThere h₁ hreply), run_makeDirectories h₂]

/-- **A directory below a standing one is made anew.** -/
theorem run_resetDirectory {S : Set Location} {w : World} {p : Path} {l : Location}
    {ss : List String} (hp : Standing S w.files p l) (hn : ∀ s ∈ ss, IsName s) (hne : ss ≠ [])
    (hfit : Fits (p.down ss)) (htidy : Tidy l ss w.files) :
    ∃ t, Job.run (resetDirectory (p.down ss)).run w = (.ok (), { w with files := t }) ∧
      SameOutside (subtree (l ++ ss) ∪ between l ss) w.files t ∧ t.EmptyAt (l ++ ss) ∧
      Paved l ss t := by
  obtain ⟨reply, t₁, t₂, ht₁, hreply, ht₂, hrest⟩ := reset_down hp hn hne hfit htidy
  exact ⟨t₂, run_resetDirectory_of ht₁ hreply ht₂, hrest⟩

end ScriptPlugins
