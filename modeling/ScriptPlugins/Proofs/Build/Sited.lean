import ScriptPlugins.Proofs.Build.Layout
import ScriptPlugins.Proofs.Files.Changes

/-!
# Sited — the directory for adapters, in any tree

The adapters of a build stay as they are while anything else of the build changes, unless the path
to its root itself leads through them.  This holds in any tree whatsoever, in order or not.
-/

namespace ScriptPlugins

open FileTree

/-! ## 1. Where the adapters are -/

namespace BuildLayout

variable {b : BuildLayout} {k l m : Location} {t t' : FileTree} {q : Path} {ss : List String}
  {bytes : ByteArray} {reply : Except FileError Unit}

/-- Where the adapters of a build are, seen from a location. -/
def adaptersAt (b : BuildLayout) (l : Location) : Location := leads l b.adapters.steps

theorem isName_adaptersNames : ∀ s ∈ adaptersNames, IsName s := by decide

theorem isName_packagedNames : ∀ s ∈ packagedNames, IsName s := by decide

theorem steps_adapters (b : BuildLayout) :
    b.adapters.steps = b.root.steps ++ adaptersNames.map .name :=
  Path.steps_down (fun s hs => (isName_adaptersNames s hs).part) b.root

theorem steps_outputClasses (b : BuildLayout) :
    b.outputClasses.steps = b.root.steps ++ packagedNames.map .name :=
  Path.steps_down (fun s hs => (isName_packagedNames s hs).part) b.root

theorem adaptersAt_eq (b : BuildLayout) (l : Location) :
    b.adaptersAt l = leads l b.root.steps ++ adaptersNames := by
  rw [adaptersAt, steps_adapters, leads_append, leads_names]

theorem text_adapters_ne (b : BuildLayout) : b.adapters.text ≠ "" :=
  text_down_ne isName_adaptersNames (by decide) b.root

theorem text_outputClasses_ne (b : BuildLayout) : b.outputClasses.text ≠ "" :=
  text_down_ne isName_packagedNames (by decide) b.root

theorem endsInSlash_adapters (b : BuildLayout) : b.adapters.endsInSlash = false :=
  endsInSlash_down isName_adaptersNames (by decide) b.root

/-- A build to whose root the path does not lead through the directory for its adapters. -/
def Direct (b : BuildLayout) (l : Location) : Prop :=
  ∀ m ∈ onWay l b.root.steps, m ∉ inside (b.adaptersAt l)

instance (b : BuildLayout) (l : Location) : Decidable (b.Direct l) :=
  decidable_of_iff (∀ ps ∈ b.root.steps.inits,
      ¬(b.adaptersAt l <+: leads l ps ∧ b.adaptersAt l ≠ leads l ps)) <| by
    constructor
    · rintro h m ⟨ps, hps, rfl⟩
      exact h ps ((List.mem_inits _ _).mpr hps)
    · exact fun h ps hps => h _ ⟨ps, (List.mem_inits _ _).mp hps, rfl⟩

/-- What is on the way to anything else of a build is not in the directory for adapters. -/
theorem Direct.not_mem (hd : b.Direct l) (hm : m ∈ onWay l (b.root.steps ++ ss.map .name))
    (h : adaptersNames <+: ss → ss = adaptersNames) : m ∉ inside (b.adaptersAt l) := by
  rcases mem_onWay_names hm with hm | ⟨r, hr, rfl⟩
  · exact hd m hm
  · rintro ⟨hp, hne⟩
    rw [adaptersAt_eq] at hp hne
    have hp' := (List.prefix_append_right_inj _).mp hp
    have hss := h (hp'.trans hr)
    exact hne (congrArg _ (hp'.eq_of_length_le (hss ▸ hr).length_le))

/-! ## 2. Trees with a directory for adapters -/

/-- A proper tree in which the directory for adapters is there, and no file stands in the way to the
root of the build. -/
structure Sited (b : BuildLayout) (l : Location) (t : FileTree) : Prop where
  here : t.here = l
  proper : t.Proper
  clear : ∀ m ∈ onWay l b.root.steps, ∀ bytes, t.entry? m ≠ some (.file bytes)
  directory : t.entry? (b.adaptersAt l) = some .directory

theorem Sited.grown {S : Set Location} (h : b.Sited l t) (hg : Grown S t t') (hproper : t'.Proper) :
    b.Sited l t' := by
  refine ⟨hg.here.trans h.here, hproper, fun m hm bytes hfile => ?_, hg.kept h.directory⟩
  rcases hg.entries m with he | ⟨-, -, hmade⟩
  · exact h.clear m hm bytes (he ▸ hfile)
  · rw [hmade] at hfile
    cases hfile

theorem Sited.cleared (h : b.Sited l t) (hc : Cleared m t t') (hm : ¬m <+: b.adaptersAt l) :
    b.Sited l t' := by
  refine ⟨hc.others.here.trans h.here, h.proper.cleared hc, fun k hk bytes hfile => ?_,
    (hc.others.entries _ hm).trans h.directory⟩
  rcases hc.kept_or_gone k with he | hnone
  · exact h.clear k hk bytes (he ▸ hfile)
  · rw [hnone] at hfile
    cases hfile

/-- A file that is written below the root of the build does not stand in the way to the root. -/
theorem Sited.writeFile (h : b.Sited l t) (hq : b.root.steps <+: q.steps)
    (hne : q.steps ≠ b.root.steps) (hw : t.writeFile q bytes = .ok t') : b.Sited l t' := by
  have hproper := h.proper.writeFile hw
  obtain ⟨-, m, hm, hdir, rfl⟩ := writeFile_eq_ok.mp hw
  have hnil : m ≠ [] := fun he => hdir (he ▸ rfl)
  obtain ⟨-, hway, -⟩ := walk_eq_ok.mp (place_eq_ok.mp hm).2
  have hkept {k : Location} (hk : t.entry? k = some .directory) :
      FileTree.entry? (t.put m (.file bytes)) k = some .directory := by
    rw [entry?_put_of_ne t hnil _ fun he => hdir (he ▸ hk), hk]
  refine ⟨h.here, hproper, fun k hk bytes' hfile => ?_, hkept h.directory⟩
  -- The way of the file leads over all of these, so they were directories before and still are.
  obtain ⟨ps, hps, rfl⟩ := hk
  have hdirectory : t.entry? (leads l ps) = some .directory :=
    h.here ▸ hway ps (hps.trans hq) fun he => hne (hq.eq_of_length_le (he ▸ hps.length_le)).symm
  rw [hkept hdirectory] at hfile
  cases hfile

/-! ## 3. Changes that spare the adapters -/

/-- Changes of the files of a build that are made elsewhere than in the directory for adapters. -/
inductive Spares (b : BuildLayout) : FileChange → Prop
  | makeDirectories {q : Path} {ss : List String} (hq : q.steps <+: b.root.steps ++ ss.map .name)
      (h : adaptersNames <+: ss → ss = adaptersNames) : Spares b (.makeDirectories q)
  | writeFile {q : Path} {ss : List String} {bytes : ByteArray}
      (hq : q.steps = b.root.steps ++ ss.map .name) (hne : ss ≠ []) (h : ¬adaptersNames <+: ss) :
      Spares b (.writeFile q bytes)
  | removeDirectory {q : Path} {ss : List String} (hq : q.steps = b.root.steps ++ ss.map .name)
      (h : ¬adaptersNames <+: ss) (h' : ¬ss <+: adaptersNames) : Spares b (.removeDirectory q)

/-- The directories that are there stay, unless a change removes them. -/
theorem Spares.keeps_directories {c : FileChange} (hc : b.Spares c)
    (hno : ∀ q, c ≠ .removeDirectory q)
    (hm : t.entry? m = some .directory) : FileTree.entry? (t.apply c).2 m = some .directory := by
  cases hc with
  | @makeDirectories q => exact (grown_makeDirectories t q).kept hm
  | @writeFile q ss bytes =>
    show FileTree.entry? (t.orKeep (t.writeFile q bytes)).2 m = _
    cases hw : t.writeFile q bytes with
    | error e => exact hm
    | ok t' =>
      obtain ⟨-, k, -, hdir, rfl⟩ := writeFile_eq_ok.mp hw
      have hnil : k ≠ [] := fun he => hdir (he ▸ rfl)
      exact (entry?_put_of_ne t hnil _ fun he => hdir (he ▸ hm)).trans hm
  | @removeDirectory q => exact absurd rfl (hno q)

/-- **Such a change leaves the directory for adapters there, and all that is in it.** -/
theorem Sited.apply (h : b.Sited l t) (hd : b.Direct l) {c : FileChange} (hc : b.Spares c) :
    b.Sited l (t.apply c).2 ∧
      ∀ m ∈ inside (b.adaptersAt l), FileTree.entry? (t.apply c).2 m = t.entry? m := by
  cases hc with
  | @makeDirectories q ss hq hss =>
    -- Directories are made on the way of the path only.
    have hgrown := grown_makeDirectories t q
    rw [h.here] at hgrown
    refine ⟨h.grown hgrown (h.proper.makeDirectories q), fun m hm => ?_⟩
    exact hgrown.sameOutside.entries m fun hway => hd.not_mem (onWay_mono hq hway) hss hm
  | @writeFile q ss bytes hq hne hss =>
    show b.Sited l (t.orKeep (t.writeFile q bytes)).2 ∧
      ∀ m ∈ inside (b.adaptersAt l), FileTree.entry? (t.orKeep (t.writeFile q bytes)).2 m =
        t.entry? m
    cases hw : t.writeFile q bytes with
    | error e => exact ⟨h, fun _ _ => rfl⟩
    | ok t' =>
      refine ⟨h.writeFile (hq ▸ List.prefix_append ..) (by simp [hq, hne]) hw, fun m hm => ?_⟩
      obtain ⟨-, k, hk, hdir, rfl⟩ := writeFile_eq_ok.mp hw
      have hnil : k ≠ [] := fun he => hdir (he ▸ rfl)
      refine entry?_put_of_ne t hnil _ fun he => ?_
      -- The file goes where its path leads, and that is elsewhere.
      rw [leads_of_place hk, h.here, hq] at he
      exact hd.not_mem (leads_mem_onWay l _) (fun hp => absurd hp hss) (he ▸ hm)
  | @removeDirectory q ss hq hss hss' =>
    show b.Sited l (t.removeDirectory q).2 ∧
      ∀ m ∈ inside (b.adaptersAt l), FileTree.entry? (t.removeDirectory q).2 m = t.entry? m
    rcases removeDirectory_cases t q with ⟨e, hrefused, -⟩ | ⟨k, reply, t', hk, hcleared, hremoved⟩
    · rw [hrefused]
      exact ⟨h, fun _ _ => rfl⟩
    · have hk : k = leads l b.root.steps ++ ss := by
        rw [leads_of_place (locate_eq_ok.mp hk).1, h.here, hq, leads_append, leads_names]
      -- What is removed lies beside the directory for adapters: none of them is in the other.
      have hapart : ¬k <+: b.adaptersAt l := by
        rw [adaptersAt_eq, hk]
        exact not_prefix_at hss' _
      have hapart' : ¬b.adaptersAt l <+: k := by
        rw [adaptersAt_eq, hk]
        exact not_prefix_at hss _
      rw [hremoved]
      refine ⟨h.cleared hcleared hapart, fun m hm => ?_⟩
      obtain ⟨r, rfl⟩ := hm.1
      exact hcleared.others.entries _ (not_mem_subtree hapart hapart')

/-- An adapter is put into the directory under its name, and nothing else changes. -/
theorem Sited.replaceFile (h : b.Sited l t) {f : String} (hf : IsPart f)
    (hw : t.replaceFile (b.adapters.join f) bytes = .ok t') :
    b.Sited l t' ∧ t' = t.put (b.adaptersAt l ++ [f]) (.file bytes) ∧ Fits (b.adapters.join f) := by
  have hw' := writeFile_of_replaceFile hw
  have hsteps : (b.adapters.join f).steps = b.root.steps ++ (adaptersNames ++ [f]).map .name := by
    rw [Path.steps_join_part hf, steps_adapters, List.map_append, List.append_assoc,
      List.map_singleton]
  refine ⟨h.writeFile (hsteps ▸ List.prefix_append ..) (by simp [hsteps]) hw', ?_⟩
  obtain ⟨-, k, hk, -, rfl⟩ := writeFile_eq_ok.mp hw'
  refine ⟨?_, (place_eq_ok.mp hk).1⟩
  rw [leads_of_place hk, h.here, hsteps, leads_append, leads_names, adaptersAt_eq,
    List.append_assoc]

/-! ## 4. Making room -/

/-- A path that the system takes, apart from what stands on its way. -/
def Takeable (q : Path) : Prop := Fits q ∧ ∀ s, .name s ∈ q.steps → s.utf8ByteSize ≤ nameLimit

theorem takeable_of_place (h : t.place q = .ok m) : Takeable q :=
  ⟨(place_eq_ok.mp h).1, (walk_eq_ok.mp (place_eq_ok.mp h).2).2.2⟩

/-- The adapters are found if the other directory of the output is. -/
theorem place_adapters (h : t.place b.outputClasses = .ok m) (hfits : Fits b.adapters) :
    t.place b.adapters = .ok (b.adaptersAt t.here) := by
  -- Both lie in the same directory, so a way to one is a way to the other but for its last name.
  have hwalk := (place_eq_ok.mp h).2
  rw [steps_outputClasses, walk_append] at hwalk
  cases hroot : t.walk t.here b.root.steps with
  | error e => rw [hroot] at hwalk; cases hwalk
  | ok k =>
    rw [hroot] at hwalk
    obtain ⟨-, hway, -⟩ := walk_names_eq_ok.mp hwalk
    have hshared : ∀ r ∈ adaptersNames.inits, r ≠ adaptersNames →
        r <+: packagedNames ∧ r ≠ packagedNames := by decide
    have hdown : t.walk k (adaptersNames.map .name) = .ok (k ++ adaptersNames) :=
      walk_names_eq_ok.mpr ⟨rfl, fun r hr hne => by
        obtain ⟨hr', hne'⟩ := hshared r ((List.mem_inits _ _).mpr hr) hne
        exact hway r hr' hne', fun s hs => (isName_adaptersNames s hs).size⟩
    refine place_eq_ok.mpr ⟨hfits, ?_⟩
    rw [adaptersAt_eq, ← (walk_eq_ok.mp hroot).1, steps_adapters, walk_append, hroot]
    exact hdown

/-- Nothing but directories is on the way to the root of a build whose adapters are found. -/
theorem directory_of_place (h : t.place b.adapters = .ok m) (hk : k ∈ onWay t.here b.root.steps) :
    t.entry? k = some .directory := by
  obtain ⟨ps, hps, rfl⟩ := hk
  have hway := (walk_eq_ok.mp (place_eq_ok.mp h).2).2.1
  refine hway ps (hps.trans (steps_adapters b ▸ List.prefix_append ..)) fun he => ?_
  have hlen := hps.length_le
  rw [he, steps_adapters, List.length_append, List.length_map,
    show adaptersNames.length = 3 from rfl] at hlen
  omega

/-- **When both directories of the output have been made anew, the one for adapters is there and
nothing is in it**, whatever was there before. -/
theorem sited_of_reset (hproper : t.Proper) (hd : b.Direct t.here) {t₁ t₂ t₃ t₄ : FileTree}
    {reply reply' : Except FileError Unit} (h₁ : t.removeDirectory b.outputClasses = (reply, t₁))
    (h₂ : t₁.makeDirectories b.outputClasses = (.ok (), t₂))
    (h₃ : t₂.removeDirectory b.adapters = (reply', t₃))
    (hreply : reply' = .ok () ∨ reply' = .error .notFound)
    (h₄ : t₃.makeDirectories b.adapters = (.ok (), t₄)) :
    b.Sited t.here t₄ ∧ Takeable b.adapters ∧
      ∀ m ∈ inside (b.adaptersAt t.here), t₄.entry? m = none := by
  obtain ⟨hproper₁, hhere₁⟩ := hproper.apply (c := .removeDirectory b.outputClasses) h₁
  obtain ⟨hproper₂, hhere₂⟩ := hproper₁.apply (c := .makeDirectories b.outputClasses) h₂
  obtain ⟨hproper₃, hhere₃⟩ := hproper₂.apply (c := .removeDirectory b.adapters) h₃
  obtain ⟨hproper₄, hhere₄⟩ := hproper₃.apply (c := .makeDirectories b.adapters) h₄
  rw [hhere₁] at hhere₂
  rw [hhere₂] at hhere₃
  rw [hhere₃] at hhere₄
  obtain ⟨k, hk, -⟩ := place_of_makeDirectories b.text_outputClasses_ne h₂
  obtain ⟨a, ha, hdirectory⟩ := place_of_makeDirectories b.text_adapters_ne h₄
  obtain rfl : a = b.adaptersAt t.here := by rw [leads_of_place ha, hhere₄, adaptersAt]
  -- The way to the root stands once the first directory has been made.
  have hplace : t₂.place b.adapters = .ok (b.adaptersAt t.here) :=
    hhere₂ ▸ place_adapters hk (place_eq_ok.mp ha).1
  have hlocate : t₂.locate b.adapters = .ok (b.adaptersAt t.here) :=
    locate_eq_ok.mpr ⟨hplace, fun hs => by rw [endsInSlash_adapters] at hs; cases hs⟩
  have hgone := hproper₂.nothing_inside hlocate h₃ hreply
  have hgrown := grown_makeDirectories t₃ b.adapters
  rw [h₄, hhere₃] at hgrown
  refine ⟨⟨hhere₄, hproper₄, fun m hm bytes hfile => ?_, hdirectory⟩, takeable_of_place ha,
    fun m hm => ?_⟩
  · rw [directory_of_place ha (hhere₄ ▸ hm)] at hfile
    cases hfile
  · rw [hgrown.sameOutside.entries m fun hway => ?_, hgone m hm]
    exact hd.not_mem (steps_adapters b ▸ hway) (fun _ => rfl) hm

/-! ## 5. Looking -/

/-- A walk on which no file stands ends, or finds that something is missing. -/
theorem walk_cases {cs : List Component}
    (hclear : ∀ m ∈ onWay l cs, ∀ bytes, t.entry? m ≠ some (.file bytes))
    (hsizes : ∀ s, .name s ∈ cs → s.utf8ByteSize ≤ nameLimit) :
    t.walk l cs = .ok (leads l cs) ∨ t.walk l cs = .error .notFound := by
  induction cs generalizing l with
  | nil => exact .inl rfl
  | cons c cs ih =>
    have hrest := ih (l := c.next l) (fun m ⟨ps, hps, hm⟩ =>
      hclear m ⟨c :: ps, List.cons_prefix_cons.mpr ⟨rfl, hps⟩, hm⟩)
      fun s hs => hsizes s (List.mem_cons_of_mem c hs)
    cases he : t.entry? l with
    | none => exact .inr (by rw [walk.eq_def, enter_missing he]; rfl)
    | some e =>
      cases e with
      | file bytes => exact absurd he (hclear l ⟨[], List.nil_prefix, rfl⟩ bytes)
      | directory =>
        have hstep : t.walk l (c :: cs) = t.walk (c.next l) cs := by
          rw [walk.eq_def, enter_directory he]
          cases c with
          | name s => exact if_neg (Nat.not_lt.mpr (hsizes s List.mem_cons_self))
          | _ => rfl
        rw [hstep]
        exact hrest

namespace Sited

/-- What stands in the directory for adapters is handed out if the path leads to the root of the
build. -/
theorem list (h : b.Sited l t) (htake : Takeable b.adapters)
    (hroot : t.walk l b.root.steps = .ok (leads l b.root.steps)) :
    t.place b.adapters = .ok (b.adaptersAt l) ∧
      t.list b.adapters = .ok (t.children (b.adaptersAt l)).reverse := by
  have hway (r : List String) (hr : r <+: adaptersNames) (hne : r ≠ adaptersNames) :
      t.entry? (leads l b.root.steps ++ r) = some .directory := by
    obtain ⟨x, hx⟩ := hr
    refine h.proper.directory (r := x) (fun hnil => hne (by rw [← hx, hnil, List.append_nil])) ?_
    rw [List.append_assoc, hx, ← adaptersAt_eq, h.directory]
    simp
  have hdown := walk_names_eq_ok.mpr ⟨rfl, hway, fun s hs => (isName_adaptersNames s hs).size⟩
  have hplace : t.place b.adapters = .ok (b.adaptersAt l) := by
    refine place_eq_ok.mpr ⟨htake.1, ?_⟩
    rw [h.here, adaptersAt_eq, steps_adapters, walk_append, hroot]
    exact hdown
  refine ⟨hplace, list_of_locate (locate_eq_ok.mpr ⟨hplace, fun hs => ?_⟩) h.directory⟩
  rw [endsInSlash_adapters] at hs
  cases hs

/-- Else the directory counts as missing. -/
theorem list_missing (h : b.Sited l t) (htake : Takeable b.adapters)
    (hroot : t.walk l b.root.steps ≠ .ok (leads l b.root.steps)) :
    t.list b.adapters = .error .notFound := by
  have hsizes (s : String) (hs : .name s ∈ b.root.steps) : s.utf8ByteSize ≤ nameLimit :=
    htake.2 s (steps_adapters b ▸ List.mem_append_left _ hs)
  have hwalk : t.walk t.here b.adapters.steps = .error .notFound := by
    rw [h.here, steps_adapters, walk_append, (walk_cases h.clear hsizes).resolve_left hroot]
    rfl
  rw [FileTree.list, locate_eq htake.1 b.endsInSlash_adapters hwalk]
  rfl

end Sited

end BuildLayout

end ScriptPlugins
