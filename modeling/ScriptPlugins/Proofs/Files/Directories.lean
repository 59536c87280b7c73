import ScriptPlugins.Proofs.Files.Leading

/-!
# Directories — making them, and what stands in the way

Where there is nothing but directories on the way, all missing ones are made and nothing else
changes.  The way may lead up and down again.
-/

namespace ScriptPlugins

namespace Path

/-- A path below another one, by names, or by steps that may lead up. -/
def down (p : Path) (ss : List String) : Path := ss.foldl Path.join p

@[simp] theorem down_nil (p : Path) : p.down [] = p := rfl

@[simp] theorem down_concat (p : Path) (ss : List String) (s : String) :
    p.down (ss ++ [s]) = (p.down ss).join s := List.foldl_concat ..

theorem steps_down_steps {ss : List String} (hs : ∀ s ∈ ss, IsStep s) (p : Path) :
    (p.down ss).steps = p.steps ++ ss.map component := by
  induction ss using List.reverseRecOn with
  | nil => simp
  | append_singleton ss s ih =>
    rw [down_concat, steps_join_step (hs s (by simp)),
      ih fun s hm => hs s (List.mem_append_left _ hm),
      List.map_append, List.append_assoc, List.map_singleton]

theorem map_component {ss : List String} (hn : ∀ s ∈ ss, IsPart s) :
    ss.map component = ss.map .name :=
  List.map_congr_left fun s hs => component_part (hn s hs)

theorem steps_down {ss : List String} (hn : ∀ s ∈ ss, IsPart s) (p : Path) :
    (p.down ss).steps = p.steps ++ ss.map .name := by
  rw [steps_down_steps (fun s hs => (hn s hs).step), map_component hn]

theorem endsInSlash_down {ss : List String} (hs : ∀ s ∈ ss, IsStep s) (hne : ss ≠ []) (p : Path) :
    (p.down ss).endsInSlash = false := by
  obtain ⟨init, s, rfl⟩ := List.eq_nil_or_concat' ss |>.resolve_left hne
  rw [down_concat]
  exact endsInSlash_join (hs s (by simp)) _

theorem text_down_ne {ss : List String} (hs : ∀ s ∈ ss, IsStep s) (hne : ss ≠ []) (p : Path) :
    (p.down ss).text ≠ "" := by
  obtain ⟨init, s, rfl⟩ := List.eq_nil_or_concat' ss |>.resolve_left hne
  rw [down_concat]
  exact text_join_ne (hs s (by simp)) _

/-- A path that goes on by several steps lies in the one without the last of them. -/
theorem parent?_down {ss : List String} {s : String} (hs : ∀ s ∈ ss, IsStep s) (hne : ss ≠ [])
    (hlast : IsStep s) (p : Path) : (p.down (ss ++ [s])).parent? = some (p.down ss) := by
  obtain ⟨init, s', rfl⟩ := List.eq_nil_or_concat' ss |>.resolve_left hne
  rw [down_concat, down_concat]
  exact parent?_join (hs s' (by simp)) hlast _

/-- It is longer, too, so that going up from it ends. -/
theorem length_down_lt {ss : List String} {s : String} (hs : ∀ s ∈ ss, IsStep s) (hne : ss ≠ [])
    (hlast : IsStep s) (p : Path) :
    (p.down ss).text.length < (p.down (ss ++ [s])).text.length := by
  rw [down_concat, text_join hlast.no_slash,
    if_neg (by simp [text_down_ne hs hne, endsInSlash_down hs hne]), String.length_append,
    String.length_append]
  show _ < (p.down ss).text.length + 1 + _
  omega

/-- The text of a path that goes down: its names stand behind a slash, with slashes between them. -/
theorem text_down {ss : List String} (hs : ∀ s ∈ ss, IsStep s) (hne : ss ≠ []) (p : Path) :
    (p.down ss).text = (p.join "").text ++ Text.joinWith "/" ss := by
  induction ss generalizing p with
  | nil => exact absurd rfl hne
  | cons s ss ih =>
    have hstep : IsStep s := hs s List.mem_cons_self
    have hhead := Text.head?_ne_slash hstep.no_slash
    cases ss with
    | nil => exact text_join_relative hhead p
    | cons t ss =>
      have hslash : ((p.join s).join "").text = (p.join s).text ++ "/" := by
        rw [text_join (by simp), if_neg (by simp [text_join_ne hstep, endsInSlash_join hstep]),
          String.append_empty]
      have hrest :=
        ih (fun s' hs' => hs s' (List.mem_cons_of_mem s hs')) (List.cons_ne_nil t ss) (p.join s)
      rw [Text.joinWith_cons, ← String.append_assoc, ← String.append_assoc,
        ← text_join_relative hhead, ← hslash, ← hrest]
      rfl

end Path

namespace FileTree

variable {S : Set Location} {t : FileTree} {p : Path} {l : Location} {ss : List String}

/-! ## 1. The way down -/

/-- What lies between a location and one below it, which it may include. -/
def between (l : Location) (ss : List String) : Set Location := {m | m ∈ inside l ∧ m <+: l ++ ss}

theorem between_nil (l : Location) : between l [] = ∅ := by
  ext m
  simp only [between, Set.mem_ofPred_eq, Set.mem_empty_iff_false, iff_false, List.append_nil]
  rintro ⟨⟨h, hne⟩, h'⟩
  exact hne (h.eq_of_length_le h'.length_le)

theorem mem_between_concat {l m : Location} {ss : List String} {s : String} :
    m ∈ between l (ss ++ [s]) ↔ m = l ++ ss ++ [s] ∨ m ∈ between l ss := by
  simp only [between, Set.mem_ofPred_eq, ← List.append_assoc, List.prefix_concat_iff]
  constructor
  · rintro ⟨h, rfl | h'⟩
    · exact .inl rfl
    · exact .inr ⟨h, h'⟩
  · rintro (rfl | ⟨h, h'⟩)
    · refine ⟨?_, .inl rfl⟩
      rw [List.append_assoc]
      exact mem_inside (by simp)
    · exact ⟨h, .inr h'⟩

theorem concat_not_mem_between (l : Location) (ss : List String) (s : String) :
    l ++ (ss ++ [s]) ∉ between l ss := by
  intro h
  have hl := h.2.length_le
  simp only [List.length_append, List.length_singleton] at hl
  omega

theorem between_subset_inside (l : Location) (ss : List String) : between l ss ⊆ inside l :=
  fun _ h => h.1

/-- The way down is walked if it consists of directories. -/
theorem walk_down (hp : Standing S t p l) (hn : ∀ s ∈ ss, IsName s)
    (hd : ∀ m ∈ between l ss, m ≠ l ++ ss → t.entry? m = some .directory) :
    t.walk t.here (p.down ss).steps = .ok (l ++ ss) := by
  induction ss using List.reverseRecOn with
  | nil => rw [Path.down_nil, List.append_nil]; exact hp.walk
  | append_singleton ss s ih =>
    have hne : l ++ ss ≠ l ++ (ss ++ [s]) := by simp
    have hlast : t.entry? (l ++ ss) = some .directory := by
      by_cases hss : ss = []
      · rw [hss, List.append_nil]; exact hp.directory
      · exact hd _ (mem_between_concat.mpr (.inr ⟨mem_inside hss, List.prefix_refl _⟩)) hne
    have hwalk := ih (fun s hs => hn s (List.mem_append_left _ hs)) fun m hm _ =>
      hd m (mem_between_concat.mpr (.inr hm)) fun he => concat_not_mem_between l ss s (he ▸ hm)
    rw [Path.down_concat, Path.steps_join (hn s (by simp)), walk_append, hwalk]
    show t.walk (l ++ ss) [.name s] = _
    rw [walk_name hlast (hn s (by simp)), List.append_assoc]

/-- The way down ends where the first directory is missing. -/
theorem walk_down_missing (hp : Standing S t p l) (hn : ∀ s ∈ ss, IsName s)
    (hd : ∀ m ∈ between l ss, t.entry? m = none ∨ t.entry? m = some .directory)
    (hm : ∃ m ∈ between l ss, m ≠ l ++ ss ∧ t.entry? m = none) :
    t.walk t.here (p.down ss).steps = .error .notFound := by
  induction ss using List.reverseRecOn with
  | nil =>
    obtain ⟨m, hm, -⟩ := hm
    rw [between_nil] at hm
    exact absurd hm (Set.notMem_empty m)
  | append_singleton ss s ih =>
    have hn' : ∀ s ∈ ss, IsName s := fun s hs => hn s (List.mem_append_left _ hs)
    have hd' : ∀ m ∈ between l ss, t.entry? m = none ∨ t.entry? m = some .directory :=
      fun m hm => hd m (mem_between_concat.mpr (.inr hm))
    rw [Path.down_concat, Path.steps_join (hn s (by simp)), walk_append]
    by_cases hmiss : ∃ m ∈ between l ss, m ≠ l ++ ss ∧ t.entry? m = none
    · rw [ih hn' hd' hmiss]
      rfl
    · have hwalk : t.walk t.here (p.down ss).steps = .ok (l ++ ss) :=
        walk_down hp hn' fun m hm hne =>
          (hd' m hm).resolve_left fun h => hmiss ⟨m, hm, hne, h⟩
      obtain ⟨m, hm, hne, hnone⟩ := hm
      -- Nothing is missing before the directory of the last name, so that one is.
      have hlast : m = l ++ ss := by
        rcases mem_between_concat.mp hm with h | h
        · exact absurd (h.trans (List.append_assoc ..)) hne
        · exact not_not.mp fun hne' => hmiss ⟨m, h, hne', hnone⟩
      rw [hwalk]
      show t.walk (l ++ ss) [.name s] = _
      exact walk_name_missing (hlast ▸ hnone) s

/-! ## 2. Making directories -/

theorem endsInSlash_down (hn : ∀ s ∈ ss, IsName s) (hne : ss ≠ []) (p : Path) :
    (p.down ss).endsInSlash = false := Path.endsInSlash_down (fun s hs => (hn s hs).step) hne p

theorem text_down_ne (hn : ∀ s ∈ ss, IsName s) (hne : ss ≠ []) (p : Path) :
    (p.down ss).text ≠ "" := Path.text_down_ne (fun s hs => (hn s hs).step) hne p

theorem makeDirectory_missing {q : Path} {m : Location} (h : t.place q = .ok m)
    (hm : t.entry? m = none) : t.makeDirectory q = .ok (t.put m .directory) := by
  simp only [makeDirectory, h, hm, bind, Except.bind]

theorem makeDirectory_there {q : Path} {m : Location} {e : Entry} (h : t.place q = .ok m)
    (hm : t.entry? m = some e) : t.makeDirectory q = .error .alreadyExists := by
  simp only [makeDirectory, h, hm, bind, Except.bind]

theorem makeDirectory_nowhere {q : Path} {e : FileError} (h : t.place q = .error e) :
    t.makeDirectory q = .error e := by
  rw [makeDirectory, h]
  rfl

theorem isDirectory_of_locate {q : Path} {m : Location} (h : t.locate q = .ok m)
    (hm : t.entry? m = some .directory) : t.isDirectory q = true := by
  have hl : t.look q = .ok .directory := by simp only [look, h, hm, bind, Except.bind]
  rw [isDirectory, hl]

/-- The directories on the way down, made as far as they are missing. -/
structure MadeDown (l : Location) (ss : List String) (t t' : FileTree) : Prop where
  here : t'.here = t.here
  made : ∀ m ∈ between l ss, t'.entry? m = some .directory
  others : ∀ m, m ∉ between l ss → t'.entry? m = t.entry? m

theorem MadeDown.sameOutside {t' : FileTree} (h : MadeDown l ss t t') :
    SameOutside (inside l) t t' :=
  ⟨h.here, fun m hm => h.others m fun hb => hm (between_subset_inside l ss hb)⟩

/-- The directories on a way, made as far as they are missing. -/
structure MadeAlong (l : Location) (cs : List Component) (t t' : FileTree) : Prop where
  here : t'.here = t.here
  made : ∀ m ∈ onWay l cs, t'.entry? m = some .directory
  others : ∀ m, m ∉ onWay l cs → t'.entry? m = t.entry? m

theorem MadeAlong.kept {cs : List Component} {t' : FileTree} {m : Location}
    (h : MadeAlong l cs t t')
    (hm : t.entry? m = some .directory) : t'.entry? m = some .directory := by
  by_cases hway : m ∈ onWay l cs
  · exact h.made m hway
  · exact (h.others m hway).trans hm

/-- What making the last directory of a way answers: it is made, or it is there. -/
def MakesLast (t : FileTree) (q : Path) (t' : FileTree) : Prop :=
  t.makeDirectory q = .ok t' ∨
    t' = t ∧ t.makeDirectory q = .error .alreadyExists ∧ t.isDirectory q = true

theorem makesLast {q : Path} {m : Location} (hfit : Fits q) (hslash : q.endsInSlash = false)
    (hw : t.walk t.here q.steps = .ok m) (hm : t.entry? m = none ∨ t.entry? m = some .directory) :
    ∃ t', MakesLast t q t' ∧ t'.here = t.here ∧ t'.entry? m = some .directory ∧
      ∀ k, k ≠ m → t'.entry? k = t.entry? k := by
  have hplace := place_eq hfit hw
  rcases hm with hnone | hd
  · have hne : m ≠ [] := by
      rintro rfl
      cases hnone
    exact ⟨_, .inl (makeDirectory_missing hplace hnone), rfl, entry?_put_self t hne _,
      fun k hk => entry?_put_of_ne t hne _ hk⟩
  · exact ⟨t, .inr ⟨rfl, makeDirectory_there hplace hd,
      isDirectory_of_locate (locate_eq hfit hslash hw) hd⟩, rfl, hd, fun _ _ => rfl⟩

/-- Once the way to the last directory stands, this one is made or is there. -/
theorem MadeAlong.makesLast {cs : List Component} {c : Component} {q : Path} {t' : FileTree}
    (h : MadeAlong l cs t t') (hw : t.walk t.here p.steps = .ok l)
    (hsteps : q.steps = p.steps ++ (cs ++ [c])) (hfit : Fits q) (hslash : q.endsInSlash = false)
    (hsizes : ∀ s, .name s ∈ cs ++ [c] → s.utf8ByteSize ≤ nameLimit)
    (hclear : t.entry? (leads l (cs ++ [c])) = none ∨
      t.entry? (leads l (cs ++ [c])) = some .directory) :
    ∃ t'', MakesLast t' q t'' ∧ MadeAlong l (cs ++ [c]) t t'' := by
  have hbase : t'.walk t'.here p.steps = .ok l := h.here ▸ walk_mono hw fun _ _ => h.kept
  have hwalk : t'.walk t'.here q.steps = .ok (leads l (cs ++ [c])) := by
    rw [hsteps, walk_append, hbase]
    refine walk_eq_ok.mpr ⟨rfl, fun ps hps hne => h.made _ ⟨ps, ?_, rfl⟩, hsizes⟩
    exact (List.prefix_concat_iff.mp hps).resolve_left hne
  have hlast : t'.entry? (leads l (cs ++ [c])) = none ∨
      t'.entry? (leads l (cs ++ [c])) = some .directory := by
    -- A way that turns back ends at a directory that it has been through.
    by_cases hway : leads l (cs ++ [c]) ∈ onWay l cs
    · exact .inr (h.made _ hway)
    · rwa [h.others _ hway]
  obtain ⟨t'', hmakes, hhere, hd, hothers⟩ := FileTree.makesLast hfit hslash hwalk hlast
  refine ⟨t'', hmakes, hhere.trans h.here, fun m hm => ?_, fun m hm => ?_⟩
  · by_cases he : m = leads l (cs ++ [c])
    · rw [he, hd]
    · rw [hothers m he, h.made m ((mem_onWay_concat.mp hm).resolve_left he)]
  · rw [mem_onWay_concat, not_or] at hm
    rw [hothers m hm.1, h.others m hm.2]

theorem ancestors_go (fuel : Nat) (q : Path) : ∃ above, Path.ancestors.go fuel q = q :: above := by
  cases fuel with
  | zero => exact ⟨[], rfl⟩
  | succ fuel =>
    rw [Path.ancestors.go]
    split
    · exact ⟨[], rfl⟩
    · exact ⟨_, rfl⟩

/-- The first of some directories is made at once where those above it are there. -/
theorem makeFirst_at_once {q : Path} {above : List Path} {t' : FileTree} (hq : q.text ≠ "")
    (h : MakesLast t q t') : makeFirst (q :: above) t = (.ok (), t') := by
  rw [makeFirst, if_neg hq]
  rcases h with hmake | ⟨rfl, hthere, hdir⟩
  · simp only [hmake]
  · simp only [hthere, hdir, if_true]

/-- It is made after those above it where one of them is missing. -/
theorem makeFirst_after {q : Path} {above : List Path} {t₁ t₂ : FileTree} (hq : q.text ≠ "")
    (hmissing : t.makeDirectory q = .error .notFound) (habove : makeFirst above t = (.ok (), t₁))
    (h : MakesLast t₁ q t₂) : makeFirst (q :: above) t = (.ok (), t₂) := by
  rw [makeFirst, if_neg hq]
  simp only [hmissing, habove]
  rcases h with hmake | ⟨rfl, hthere, hdir⟩
  · rw [hmake]
  · simp only [hthere, hdir, if_true]

/-- A directory is made in one that is there, or is there itself. -/
theorem makeDirectories_of_place {q : Path} {m : Location} (hq : q.text ≠ "")
    (h : t.place q = .ok m) (hm : t.entry? m = none) :
    t.makeDirectories q = (.ok (), t.put m .directory) := by
  obtain ⟨above, habove⟩ := ancestors_go q.text.length q
  rw [makeDirectories, Path.ancestors, habove]
  exact makeFirst_at_once hq (.inl (makeDirectory_missing h hm))

theorem makeDirectories_there {q : Path} {m : Location} (hq : q.text ≠ "")
    (h : t.place q = .ok m) (h' : t.locate q = .ok m) (hm : t.entry? m = some .directory) :
    t.makeDirectories q = (.ok (), t) := by
  obtain ⟨above, habove⟩ := ancestors_go q.text.length q
  rw [makeDirectories, Path.ancestors, habove]
  exact makeFirst_at_once hq (.inr ⟨rfl, makeDirectory_there h hm, isDirectory_of_locate h' hm⟩)

/-- **Directories are made wherever no file is on the way**: those that are missing, and nothing
else changes. -/
theorem makeDirectories_along (hw : t.walk t.here p.steps = .ok l)
    (hd : t.entry? l = some .directory)
    (hs : ∀ s ∈ ss, IsStep s ∧ s.utf8ByteSize ≤ nameLimit) (hne : ss ≠ []) (hfit : Fits (p.down ss))
    (hclear : ∀ m ∈ onWay l (ss.map Path.component),
      t.entry? m = none ∨ t.entry? m = some .directory) :
    ∃ t', t.makeDirectories (p.down ss) = (.ok (), t') ∧
      MadeAlong l (ss.map Path.component) t t' := by
  suffices ∀ fuel, (p.down ss).text.length ≤ fuel →
      ∃ t', makeFirst (Path.ancestors.go fuel (p.down ss)) t = (.ok (), t') ∧
        MadeAlong l (ss.map Path.component) t t' from
    this _ (Nat.le_refl _)
  induction ss using List.reverseRecOn with
  | nil => exact absurd rfl hne
  | append_singleton ss s ih =>
    intro fuel hfuel
    have hs' : ∀ s ∈ ss, IsStep s ∧ s.utf8ByteSize ≤ nameLimit :=
      fun s hm => hs s (List.mem_append_left _ hm)
    have hlast : IsStep s := (hs s (by simp)).1
    have hsteps : (p.down (ss ++ [s])).steps = p.steps ++ (ss ++ [s]).map Path.component :=
      Path.steps_down_steps (fun s hm => (hs s hm).1) p
    have hsizes : ∀ n, .name n ∈ (ss ++ [s]).map Path.component → n.utf8ByteSize ≤ nameLimit := by
      intro n hm
      obtain ⟨s', hs', he⟩ := List.mem_map.mp hm
      rw [← Path.eq_of_component he]
      exact (hs s' hs').2
    rw [List.map_append, List.map_singleton] at hsteps hsizes hclear ⊢
    have hclear' : ∀ m ∈ onWay l (ss.map Path.component),
        t.entry? m = none ∨ t.entry? m = some .directory :=
      fun m hm => hclear m (mem_onWay_concat.mpr (.inr hm))
    have hslash : (p.down (ss ++ [s])).endsInSlash = false :=
      Path.endsInSlash_down (fun s hm => (hs s hm).1) hne p
    have hmakes {t₁ : FileTree} (h₁ : MadeAlong l (ss.map Path.component) t t₁) :
        ∃ t₂, MakesLast t₁ (p.down (ss ++ [s])) t₂ ∧
          MadeAlong l (ss.map Path.component ++ [Path.component s]) t t₂ :=
      h₁.makesLast hw hsteps hfit hslash hsizes (hclear _ (leads_mem_onWay l _))
    by_cases hmissing : ∃ m ∈ onWay l (ss.map Path.component), t.entry? m = none
    · obtain ⟨m, ⟨ps, hps, rfl⟩, hnone⟩ := hmissing
      have hss : ss ≠ [] := by
        rintro rfl
        rw [List.prefix_nil.mp hps, leads_nil, hd] at hnone
        cases hnone
      have hsteps' : ∀ s ∈ ss, IsStep s := fun s hm => (hs' s hm).1
      have hfit' : Fits (p.down ss) := by
        rw [Path.down_concat] at hfit
        exact hfit.of_join hlast.no_slash (Path.text_down_ne hsteps' hss p)
      have hlonger := Path.length_down_lt hsteps' hss hlast p
      obtain ⟨fuel, rfl⟩ : ∃ n, fuel = n + 1 := ⟨fuel - 1, by omega⟩
      obtain ⟨t₁, ht₁, hmade⟩ := ih hs' hss hfit' hclear' fuel (by omega)
      obtain ⟨t₂, hmakes, hmade₂⟩ := hmakes hmade
      -- The way is broken off, so the first try finds nothing to make the directory in.
      have hfirst : t.makeDirectory (p.down (ss ++ [s])) = .error .notFound := by
        refine makeDirectory_nowhere (place_eq hfit ?_)
        rw [hsteps, walk_append, hw]
        refine walk_missing hsizes hclear ⟨ps, hps.trans (List.prefix_append ..), ?_, hnone⟩
        intro he
        have hshort := hps.length_le
        rw [he, List.length_append, List.length_singleton] at hshort
        omega
      rw [Path.ancestors.go, Path.parent?_down hsteps' hss hlast p]
      exact ⟨t₂, makeFirst_after hfit.text_ne hfirst ht₁ hmakes, hmade₂⟩
    · have hstands : MadeAlong l (ss.map Path.component) t t :=
        ⟨rfl, fun m hm => (hclear' m hm).resolve_left fun h => hmissing ⟨m, hm, h⟩, fun _ _ => rfl⟩
      obtain ⟨t₂, hmakes, hmade₂⟩ := hmakes hstands
      obtain ⟨above, habove⟩ := ancestors_go fuel (p.down (ss ++ [s]))
      rw [habove]
      exact ⟨t₂, makeFirst_at_once hfit.text_ne hmakes, hmade₂⟩

theorem mem_onWay_iff {m : Location} : m ∈ onWay l (ss.map .name) ↔ m = l ∨ m ∈ between l ss := by
  constructor
  · intro hm
    have hcases : m ∈ onWay l [] ∨ ∃ r, r <+: ss ∧ m = l ++ r := mem_onWay_names hm
    rcases hcases with ⟨ps, hps, rfl⟩ | ⟨r, hr, rfl⟩
    · exact .inl (by rw [List.prefix_nil.mp hps, leads_nil])
    · by_cases hnil : r = []
      · exact .inl (by simp [hnil])
      · exact .inr ⟨mem_inside hnil, (List.prefix_append_right_inj l).mpr hr⟩
  · rintro (rfl | ⟨⟨⟨r, rfl⟩, -⟩, hr⟩)
    · exact ⟨[], List.nil_prefix, rfl⟩
    · have hprefix := (List.prefix_append_right_inj l).mp hr
      exact ⟨r.map .name, hprefix.map _, (leads_names l r).symm⟩

/-- **Making directories below a standing one** makes those that are missing and changes nothing
else. -/
theorem makeDirectories_down (hp : Standing S t p l) (hn : ∀ s ∈ ss, IsName s) (hne : ss ≠ [])
    (hfit : Fits (p.down ss))
    (hd : ∀ m ∈ between l ss, t.entry? m = none ∨ t.entry? m = some .directory) :
    ∃ t', t.makeDirectories (p.down ss) = (.ok (), t') ∧ MadeDown l ss t t' := by
  have hway : onWay l (ss.map Path.component) = onWay l (ss.map .name) :=
    congrArg (onWay l) (Path.map_component fun s hs => (hn s hs).part)
  obtain ⟨t', ht', hmade⟩ := makeDirectories_along hp.walk hp.directory
    (fun s hs => ⟨(hn s hs).step, (hn s hs).size⟩) hne hfit fun m hm => by
      rcases mem_onWay_iff.mp (hway ▸ hm) with rfl | hm
      · exact .inr hp.directory
      · exact hd m hm
  refine ⟨t', ht', hmade.here, fun m hm => hmade.made m (hway ▸ mem_onWay_iff.mpr (.inr hm)),
    fun m hm => ?_⟩
  by_cases hl : m = l
  · rw [hl, hp.directory]
    exact hmade.kept hp.directory
  · refine hmade.others m fun hmem => ?_
    exact (mem_onWay_iff.mp (hway ▸ hmem)).elim hl hm

end FileTree

end ScriptPlugins
