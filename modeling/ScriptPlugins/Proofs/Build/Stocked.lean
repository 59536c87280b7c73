import ScriptPlugins.Proofs.Build.Layout
import ScriptPlugins.Proofs.Cache.History

/-!
# Stocked — a build directory with a cache in it

The root of a build stands, its cache holds an entry or nothing for each name, and the directories
for what is packaged can be made anew.  This is all that later batches need to know of earlier ones.
-/

namespace ScriptPlugins

open FileTree Owning

namespace BuildLayout

/-- The names on the way to what is packaged and to the adapters. -/
def outputNames : List String := ["generated-classes"]

theorem adapters_subset (L : Location) :
    subtree (L ++ adaptersNames) ⊆ subtree (L ++ outputNames) := by
  rintro l ⟨r, rfl⟩
  exact ⟨["script-plugins", "adapters"] ++ r, by simp [outputNames, adaptersNames]⟩

theorem packaged_subset (L : Location) :
    subtree (L ++ packagedNames) ⊆ subtree (L ++ outputNames) := by
  rintro l ⟨r, rfl⟩
  exact ⟨["script-plugins", "classes"] ++ r, by simp [outputNames, packagedNames]⟩

/-- A build whose cache holds some entries. -/
structure Stocked (b : BuildLayout) (L : Location) (made : String → Option Made) (t : FileTree) :
    Prop where
  stands : Standing (inside L) t b.root L
  classesRoot : Paved L classesNames t
  metadataRoot : Paved L metadataNames t
  classes : ∀ n, t.Stores (L ++ classesNames ++ [n]) (classFileName n)
    (Boxes.ofMade (made n)).classes
  metadata : ∀ n, t.Stores (L ++ metadataNames ++ [n]) metadataFileName
    (Boxes.ofMade (made n)).metadata

variable {b : BuildLayout} {L : Location} {made : String → Option Made} {t t' : FileTree}
  {S : Set Location} {o : Owning} {used : Set Script} {w w' : World}

/-! ## 1. Where the roots are -/

theorem mem_between_two {l m : Location} {s s' : String} :
    m ∈ between l [s, s'] ↔ m = l ++ [s, s'] ∨ m = l ++ [s] := by
  rw [show [s, s'] = [s] ++ [s'] from rfl, mem_between_concat, mem_between_one, List.append_assoc]

theorem paved_two {l : Location} {s s' : String} (h : t.entry? (l ++ [s]) = some .directory)
    (h' : t.entry? (l ++ [s, s']) = some .directory) : Paved l [s, s'] t := by
  intro m hm
  rcases mem_between_two.mp hm with rfl | rfl
  · exact h'
  · exact h

/-- A directory below the root of a build stands if nothing changes on the way to it. -/
theorem standing_below {ss : List String} (h : Standing (inside L) t b.root L)
    (hn : ∀ s ∈ ss, IsName s) (hne : ss ≠ []) (hpaved : Paved L ss t) (hsub : S ⊆ inside L)
    (hway : ∀ m ∈ between L ss, m ∉ S) (hbelow : inside (L ++ ss) ⊆ S) :
    Standing S t (b.root.down ss) (L ++ ss) where
  leads t' hs := walk_down (h.stays (hs.mono hsub)) hn fun m hm _ => by
    rw [hs.entries m (hway m hm), hpaved m hm]
  directory := hpaved.directory hne
  outside := hway _ ⟨mem_inside hne, List.prefix_refl _⟩
  below := hbelow

/-- What only changes below some roots, one of them in the way of none, keeps the way to that
one. -/
theorem not_mem_inside_between {ss ss' : List String} (h : ss = ss' ∨ ¬ss' <+: ss) {m : Location}
    (hm : m ∈ between L ss) : m ∉ inside (L ++ ss') := by
  intro hin
  rcases h with rfl | h
  · exact hin.2 (hin.1.eq_of_length_le hm.2.length_le)
  · exact not_prefix_at h L (hin.1.trans hm.2)

theorem Reaches.not_mem (h : Reaches S L) {ss : List String} {m : Location} (hm : m ∈ between L ss)
    (hc : ss = classesNames ∨ ¬classesNames <+: ss)
    (hmeta : ss = metadataNames ∨ ¬metadataNames <+: ss)
    (ha : ss = adaptersNames ∨ ¬adaptersNames <+: ss) : m ∉ S := by
  intro hs
  rcases h m hs with h | h | h
  · exact not_mem_inside_between hc hm h
  · exact not_mem_inside_between hmeta hm h
  · exact not_mem_inside_between ha hm h

theorem cached_subset_inside (L : Location) :
    subtree (L ++ classesNames) ∪ subtree (L ++ metadataNames) ⊆ inside L := by
  rintro l (⟨r, rfl⟩ | ⟨r, rfl⟩) <;>
    · rw [List.append_assoc]
      exact mem_inside (by simp [classesNames, metadataNames])

theorem reaches_owning :
    Reaches (Cache.owned (Cache.owning (L ++ classesNames) (L ++ metadataNames) 0)
    (L ++ classesNames) (L ++ metadataNames)) L :=
  fun _ hl => (Cache.owned_owning hl).imp_right .inl

namespace Stocked

/-- The entries stand in the cache of the build, whoever owns them. -/
theorem shelf (h : b.Stocked L made t)
    (ho : Reaches (Cache.owned o (L ++ classesNames) (L ++ metadataNames)) L) :
    b.cache.Shelf o (L ++ classesNames) (L ++ metadataNames) Set.univ (Boxes.ofMade ∘ made) t where
  classesRoot := standing_below h.stands (by decide) (by decide) h.classesRoot ho.subset
    (fun m hm => ho.not_mem hm (by decide) (by decide) (by decide)) fun _ hl => .inr (.inl hl)
  metadataRoot := standing_below h.stands (by decide) (by decide) h.metadataRoot ho.subset
    (fun m hm => ho.not_mem hm (by decide) (by decide) (by decide)) fun _ hl => .inr (.inr hl)
  classes n _ := h.classes n
  metadata n _ := h.metadata n

/-- Entries that stand in the cache of a build, if the way to its roots has stayed. -/
theorem of_shelf (hp : Standing (inside L) t b.root L)
    (hcache : t.entry? (L ++ ["compiled-scripts"]) = some .directory)
    (h : b.cache.Shelf o (L ++ classesNames) (L ++ metadataNames) Set.univ
      (Boxes.ofMade ∘ made) t) :
    b.Stocked L made t :=
  ⟨hp, paved_two hcache h.classesRoot.directory, paved_two hcache h.metadataRoot.directory,
    fun n => h.classes n trivial, fun n => h.metadata n trivial⟩

theorem cache_directory (h : b.Stocked L made t) :
    t.entry? (L ++ ["compiled-scripts"]) = some .directory :=
  h.classesRoot _ (mem_between_two.mpr (.inr rfl))

theorem locate_metadata (h : b.Stocked L made t) (hfit : b.Fitting) :
    t.locate b.cache.metadataRoot = .ok (L ++ metadataNames) := by
  have hlocate : t.locate (b.root.down metadataNames) = .ok (L ++ metadataNames) :=
    locate_down h.stands (by decide) (by decide) hfit.metadata h.metadataRoot.way
  exact hlocate

/-- Both roots can be removed and made again. -/
theorem housed (h : b.Stocked L made t) (hfit : b.Fitting) :
    b.cache.Housed (L ++ classesNames) (L ++ metadataNames) t := by
  have hroot (ss : List String) (hn : ∀ s ∈ ss, IsName s) (hne : ss ≠ [])
      (hfit : Fits (b.root.down ss)) : NamesRoot (b.root.down ss) :=
    ⟨hfit, endsInSlash_down hn hne _, getLast?_steps_down hn hne _⟩
  have hleads (ss : List String) (hn : ∀ s ∈ ss, IsName s) (hpaved : Paved L ss t)
      (hc : ss = classesNames ∨ ¬classesNames <+: ss)
      (hm : ss = metadataNames ∨ ¬metadataNames <+: ss)
      (t' : FileTree)
      (hs : SameOutside (subtree (L ++ classesNames) ∪ subtree (L ++ metadataNames)) t t') :
      t'.walk t'.here (b.root.down ss).steps = .ok (L ++ ss) := by
    have hnot {ss' : List String} (hss : ss = ss' ∨ ¬ss' <+: ss) {m : Location}
        (hm : m ∈ between L ss) (hne : m ≠ L ++ ss) : m ∉ subtree (L ++ ss') := by
      intro hin
      rcases hss with rfl | hss
      · exact hne (hm.2.eq_of_length_le hin.length_le)
      · exact not_prefix_at hss L (hin.trans hm.2)
    refine walk_down (h.stands.stays (hs.mono (cached_subset_inside L))) hn fun m hb hne => ?_
    rw [hs.entries m fun hin => hin.elim (hnot hc hb hne) (hnot hm hb hne), hpaved m hb]
  exact {
    classesPath := hroot classesNames (by decide) (by decide) hfit.classes
    metadataPath := hroot metadataNames (by decide) (by decide) hfit.metadata
    classesLeads := hleads classesNames (by decide) h.classesRoot (by decide) (by decide)
    metadataLeads := hleads metadataNames (by decide) h.metadataRoot (by decide) (by decide)
    apart := not_prefix_at (by decide) L
    apart' := not_prefix_at (by decide) L }

/-- What happens to the output leaves the cache alone. -/
theorem elsewhere (h : b.Stocked L made t) (hs : SameOutside (subtree (L ++ outputNames)) t t') :
    b.Stocked L made t' where
  stands := h.stands.stays (hs.mono (subtree_subset_inside L _))
  classesRoot m hm := by
    rw [hs.entries m (not_mem_subtree_between (not_prefix_at (by decide) L) hm), h.classesRoot m hm]
  metadataRoot m hm := by
    rw [hs.entries m (not_mem_subtree_between (not_prefix_at (by decide) L) hm),
      h.metadataRoot m hm]
  classes n := (h.classes n).same fun r => hs.entries _ (by
    rw [List.append_assoc]
    exact not_mem_subtree (not_prefix_at (by decide) L) (not_prefix_at (by decide) L))
  metadata n := (h.metadata n).same fun r => hs.entries _ (by
    rw [List.append_assoc]
    exact not_mem_subtree (not_prefix_at (by decide) L) (not_prefix_at (by decide) L))

end Stocked

/-! ## 2. Builds in order -/

/-- A build after any batches and any use of its cache. -/
structure InOrder (b : BuildLayout) (L : Location) (used : Set Script) (w : World) : Prop where
  stocked : ∃ made, MadeFrom used made ∧ b.Stocked L made w.files
  packaged : Tidy L packagedNames w.files
  adapters : Tidy L adaptersNames w.files
  scopes : w.scopes.Sound
  now : w.now.valid = true

namespace InOrder

theorem sane (h : b.InOrder L used w) (hfit : b.Fitting) :
    b.cache.Sane (L ++ classesNames) (L ++ metadataNames) used w.files w := by
  obtain ⟨made, hmade, hstocked⟩ := h.stocked
  exact ⟨hstocked.housed hfit, .refl _ _, h.scopes, h.now, made, hmade,
    hstocked.shelf reaches_owning⟩

/-- Using the cache leaves a build in order. -/
theorem of_sane (h : b.InOrder L used w)
    (hs : b.cache.Sane (L ++ classesNames) (L ++ metadataNames) used w.files w') :
    b.InOrder L used w' := by
  obtain ⟨_, -, hstocked⟩ := h.stocked
  obtain ⟨made, hmade, hshelf⟩ := hs.entries
  have hentry {m : Location} (hc : ¬L ++ classesNames <+: m) (hm : ¬L ++ metadataNames <+: m) :
      w'.files.entry? m = w.files.entry? m := hs.others.entries m fun h => h.elim hc hm
  have hcache : w'.files.entry? (L ++ ["compiled-scripts"]) = some .directory := by
    rw [hentry (not_prefix_at (by decide) L) (not_prefix_at (by decide) L),
      hstocked.cache_directory]
  refine ⟨⟨made, hmade, .of_shelf (hstocked.stands.stays (hs.others.mono (cached_subset_inside L)))
    hcache hshelf⟩, h.packaged.same (fun m hm => hentry ?_ ?_) (fun r => hentry ?_ ?_),
    h.adapters.same (fun m hm => hentry ?_ ?_) (fun r => hentry ?_ ?_), hs.scopes, hs.now⟩
  all_goals first
    | exact fun hp => not_prefix_at (by decide) L (hp.trans hm.2)
    | exact not_prefix_append (not_prefix_at (by decide) L) (not_prefix_at (by decide) L) _

end InOrder

/-- A build whose directory is there and holds nothing. -/
structure Empty (b : BuildLayout) (L : Location) (w : World) : Prop where
  stands : Standing (inside L) w.files b.root L
  empty : w.files.EmptyAt L
  scopes : w.scopes.Sound
  now : w.now.valid = true

theorem tidy_of_empty {ss : List String} (h : ∀ r, t.entry? (L ++ "generated-classes" :: r) = none)
    (hs : ss.head? = some "generated-classes") : Tidy L ss t := by
  obtain ⟨ss, rfl⟩ := List.head?_eq_some_iff.mp hs
  refine ⟨fun m hm => .inl ?_, fun _ r => ?_⟩
  · obtain ⟨s, r, rfl⟩ := exists_of_mem_inside hm.1
    have hp := (List.prefix_append_right_inj L).mp hm.2
    rw [(List.cons_prefix_cons.mp hp).1, h]
  · rw [List.append_assoc, List.cons_append, h]

/-- A build begins with the roots of its cache. -/
theorem Empty.run_create (h : b.Empty L w) (hfit : b.Fitting) (used : Set Script) :
    ∃ t, Job.run b.cache.create.run w = (.ok (), { w with files := t }) ∧
      b.InOrder L used { w with files := t } := by
  have hnone {s : String} {r : Location} : w.files.entry? (L ++ s :: r) = none := h.empty.empty s r
  have hbetween {m : Location} {ss : List String} (hm : m ∈ between L ss) :
      w.files.entry? m = none := by
    obtain ⟨s, r, rfl⟩ := exists_of_mem_inside hm.1
    exact hnone
  have hnames : ∀ s ∈ classesNames, IsName s := by decide
  have hnames' : ∀ s ∈ metadataNames, IsName s := by decide
  obtain ⟨t₁, ht₁, hmade₁⟩ := makeDirectories_down h.stands hnames (by decide) hfit.classes
    fun m hm => .inl (hbetween hm)
  have hp₁ : Standing (inside L) t₁ b.root L := h.stands.stays hmade₁.sameOutside
  obtain ⟨t₂, ht₂, hmade₂⟩ :=
    makeDirectories_down hp₁ hnames' (by decide) hfit.metadata fun m hm => by
      by_cases hc : m ∈ between L classesNames
      · exact .inr (hmade₁.made m hc)
      · exact .inl ((hmade₁.others m hc).trans (hbetween hm))
  have hrun : Job.run b.cache.create.run w = (.ok (), { w with files := t₂ }) := by
    have hfirst : Job.run (makeDirectories b.cache.classesRoot).run w =
        (.ok (), { w with files := t₁ }) := run_makeDirectories ht₁
    rw [Cache.create, Attempt.run_bind_ok hfirst]
    exact run_makeDirectories ht₂
  -- What is neither root nor on the way to one is still missing.
  have hrest (m : Location) (hm : m ∈ inside L) (hc : m ∉ between L classesNames)
      (hm' : m ∉ between L metadataNames) : t₂.entry? m = none := by
    obtain ⟨s, r, rfl⟩ := exists_of_mem_inside hm
    rw [hmade₂.others _ hm', hmade₁.others _ hc, hnone]
  have hbelow (ss : List String) (n : String) (r : Location) (hss : ss.length = 2) :
      t₂.entry? (L ++ ss ++ [n] ++ r) = none := by
    have hlong (ss' : List String) (hss' : ss'.length = 2) :
        L ++ ss ++ [n] ++ r ∉ between L ss' := by
      intro hm
      have hlen := hm.2.length_le
      simp only [List.length_append, List.length_singleton] at hlen
      omega
    refine hrest _ ?_ (hlong _ rfl) (hlong _ rfl)
    rw [List.append_assoc, List.append_assoc]
    exact mem_inside (by simp)
  have htidy {ss : List String} (hs : ss.head? = some "generated-classes") : Tidy L ss t₂ := by
    refine tidy_of_empty (fun r => hrest _ (mem_inside (by simp)) ?_ ?_) hs <;>
      · intro hm
        have hp := (List.prefix_append_right_inj L).mp hm.2
        exact absurd (List.cons_prefix_cons.mp hp).1 (by decide)
  have hclasses : Paved L classesNames t₂ := fun m hm => by
    by_cases hm' : m ∈ between L metadataNames
    · exact hmade₂.made m hm'
    · rw [hmade₂.others m hm', hmade₁.made m hm]
  exact ⟨t₂, hrun, ⟨fun _ => none, (fun _ _ h => absurd h (by simp)), hp₁.stays hmade₂.sameOutside,
    hclasses, hmade₂.made, fun n r => (hbelow _ n r rfl).trans (Box.entry?_missing ..).symm,
    fun n r => (hbelow _ n r rfl).trans (Box.entry?_missing ..).symm⟩,
    htidy rfl, htidy rfl, h.scopes, h.now⟩

/-- A build with a short root. -/
def small : BuildLayout := ⟨⟨"b"⟩⟩

theorem room_small : Room small.root 1024 :=
  ⟨by decide +kernel, by decide +kernel, by decide +kernel⟩

theorem fitting_small : small.Fitting := .of_room room_small

/-- A world that holds the root of that build and nothing else. -/
def bareWorld : World where
  files := (FileTree.empty []).put ["b"] .directory
  scopes := .root "core"
  registered := []
  log := []
  now := .sinceEpoch 0

theorem empty_bareWorld : small.Empty ["b"] bareWorld where
  stands := ⟨fun _ h => Cache.leads_name (by decide) rfl (by decide) h, rfl,
    fun h => h.2 rfl, subset_rfl⟩
  empty := ⟨rfl, fun s r => by
    -- Only the root of the build was put into the empty tree.
    have hne : "b" :: s :: r ≠ ["b"] := by simp
    show bareWorld.files.entry? ("b" :: s :: r) = none
    rw [bareWorld, entry?_put_of_ne _ (by decide) _ hne, entry?_of_ne_nil _ (by simp)]
    exact Std.ExtTreeMap.getElem?_empty⟩
  scopes := ScopeTree.sound_root "core"
  now := by decide

end BuildLayout

end ScriptPlugins
