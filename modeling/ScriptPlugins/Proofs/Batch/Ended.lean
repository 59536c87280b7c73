import ScriptPlugins.Proofs.Batch.Together

/-!
# The end of a batch — what its scripts have left in the cache, the scope and the register

Every name has the entry that its script has left, or the one it had before.  What the scope exports
are the classes of the entries that were loaded, and their directories are registered.
-/

namespace ScriptPlugins

open FileTree Owning BuildLayout

/-- Whether a class of a script has some name. -/
def Script.ownsClass (s : Script) (n : String) : Bool :=
  n = s.classNameOf .preamble ∨ n = s.classNameOf .body

theorem Script.ownsClass_iff {s : Script} {n : String} :
    s.ownsClass n = true ↔ ∃ phase, n = s.classNameOf phase := by
  rw [ownsClass, decide_eq_true_eq]
  constructor
  · rintro (h | h)
    · exact ⟨_, h⟩
    · exact ⟨_, h⟩
  · rintro ⟨_ | _, h⟩
    · exact .inl h
    · exact .inr h

namespace Precompiler

variable (p : Precompiler) (scope : Nat) (acc : List (Nat × Script)) (made : String → Option Made)
  (times : Nat → Phase → Instant)

/-- The stage of the script that a class of some name belongs to, when it has ended. -/
def stageAt (n : String) : Stage :=
  match acc.find? (·.2.ownsClass n) with
  | some a => (p.scriptOn a.2 scope (times a.1) (stageOf made)).2
  | none => stageOf made

/-- The entry of a name in the end. -/
def madeAfter (n : String) : Option Made := (p.stageAt scope acc made times n).made n

/-- The class that the scope exports under a name in the end. -/
def exportsAfter (n : String) : Option CompiledClass := (p.stageAt scope acc made times n).exports n

variable {p scope acc made times} {L : Location} {used : Set Script} {root : Nat} {w₀ w : World}
  {n : String} {a : Nat × Script}

theorem stageAt_of_mem (hapart : AllApart acc) (ha : a ∈ acc) {phase : Phase}
    (hn : n = a.2.classNameOf phase) :
    p.stageAt scope acc made times n = (p.scriptOn a.2 scope (times a.1) (stageOf made)).2 := by
  have howns : a.2.ownsClass n = true := Script.ownsClass_iff.mpr ⟨phase, hn⟩
  rw [stageAt]
  cases hfind : acc.find? (·.2.ownsClass n) with
  | none => exact absurd howns (List.find?_eq_none.mp hfind a ha)
  | some a' =>
    have howns' := List.find?_some (p := fun a : Nat × Script => a.2.ownsClass n) hfind
    obtain ⟨phase', hn'⟩ := Script.ownsClass_iff.mp howns'
    have ha' := List.mem_of_find?_eq_some hfind
    have he : a = a' := by
      by_contra hne
      exact (hapart.forall ha ha' hne).2 n (hn ▸ a.2.mem_names phase) (hn' ▸ a'.2.mem_names phase')
    rw [he]

theorem stageAt_of_not_mem (h : ∀ a ∈ acc, ∀ phase, n ≠ a.2.classNameOf phase) :
    p.stageAt scope acc made times n = stageOf made := by
  rw [stageAt]
  cases hfind : acc.find? (·.2.ownsClass n) with
  | none => rfl
  | some a =>
    have howns := List.find?_some (p := fun a : Nat × Script => a.2.ownsClass n) hfind
    obtain ⟨phase, hn⟩ := Script.ownsClass_iff.mp howns
    exact absurd hn (h a (List.mem_of_find?_eq_some hfind) phase)

/-- A name belongs to one script, or to none. -/
theorem mem_or_forall_ne (acc : List (Nat × Script)) (n : String) :
    (∃ a ∈ acc, ∃ phase, n = a.2.classNameOf phase) ∨
      ∀ a ∈ acc, ∀ phase, n ≠ a.2.classNameOf phase := by
  by_cases h : ∃ a ∈ acc, ∃ phase, n = a.2.classNameOf phase
  · exact .inl h
  · exact .inr fun a ha phase hn => h ⟨a, ha, phase, hn⟩

theorem scriptOn_stage (s : Script) (now : Phase → Instant) (g : Stage) :
    (p.scriptOn s scope now g).2 = (p.layout.cache.scriptOn p.compiler s scope now g).2 := by
  rw [scriptOn]
  rcases p.layout.cache.scriptOn p.compiler s scope now g with ⟨_ | _, _⟩ <;> rfl

/-! ## 1. The cache -/

/-- What belongs to a name of no script is not in the region of the scripts. -/
theorem not_mem_region (h : ∀ a ∈ acc, ∀ phase, n ≠ a.2.classNameOf phase) {l : Location}
    (hl : (batchOwning L scope).owner l = entryOwner n) :
    l ∉ (batchOwning L scope).region {n | ∃ a ∈ acc, n ∈ a.2.owns} := by
  rintro ⟨m, ⟨a, ha, hm⟩, howner⟩
  rw [hl] at howner
  rcases hm with ⟨phase, rfl⟩ | hm
  · rw [entryOwner] at howner
    split at howner
    · cases howner
    · exact h a ha phase (Option.some.inj howner)
  · exact entryOwner_ne_adapterOwner n _ (howner.trans (congrArg some hm))

/-- The cache holds the entries that are there in the end. -/
theorem Ended.shelf (h : p.Ended L scope acc made times w₀ w) (hapart : AllApart acc)
    (h₀ : p.Begins L used root scope made w₀) :
    p.layout.cache.Shelf (batchOwning L scope) (L ++ classesNames) (L ++ metadataNames) Set.univ
      (Boxes.ofMade ∘ p.madeAfter scope acc made times) w.files where
  classesRoot := h₀.shelf.classesRoot.stays (h.keeps.files.mono (Cache.region_subset_owned _))
  metadataRoot := h₀.shelf.metadataRoot.stays (h.keeps.files.mono (Cache.region_subset_owned _))
  classes n _ := by
    rcases mem_or_forall_ne acc n with ⟨a, ha, phase, hn⟩ | hn
    · rw [Function.comp_apply, madeAfter, stageAt_of_mem hapart ha hn]
      exact (h.leaves a ha).entries.knows.shelf.classes n ⟨phase, hn⟩
    · rw [Function.comp_apply, madeAfter, stageAt_of_not_mem hn]
      exact (h₀.shelf.classes n trivial).same fun r => h.keeps.files.entries _
        (not_mem_region hn (by rw [List.append_assoc]; exact owner_classes ..))
  metadata n _ := by
    rcases mem_or_forall_ne acc n with ⟨a, ha, phase, hn⟩ | hn
    · rw [Function.comp_apply, madeAfter, stageAt_of_mem hapart ha hn]
      exact (h.leaves a ha).entries.knows.shelf.metadata n ⟨phase, hn⟩
    · rw [Function.comp_apply, madeAfter, stageAt_of_not_mem hn]
      exact (h₀.shelf.metadata n trivial).same fun r => h.keeps.files.entries _
        (not_mem_region hn (by rw [List.append_assoc]; exact owner_metadata ..))

/-- The entries in the end were made from scripts that were used. -/
theorem Ended.madeFrom (h : p.Ended L scope acc made times w₀ w) (hmade : MadeFrom used made)
    (htakes : ∀ s ∈ used, p.layout.Takes s) (hapart : AllApart acc) (hacc : ∀ a ∈ acc, a.2 ∈ used) :
    MadeFrom used (p.madeAfter scope acc made times) := by
  intro n m hm
  rcases mem_or_forall_ne acc n with ⟨a, ha, phase, hn⟩ | hn
  · rw [madeAfter, stageAt_of_mem hapart ha hn, scriptOn_stage] at hm
    have hstage : MadeFrom used (stageOf made).made := hmade
    exact (Cache.loads_scriptOn p.compiler scope hstage (htakes _ (hacc a ha)).fits (hacc a ha)
      (h.leaves a ha).times).1 n m hm
  · rw [madeAfter, stageAt_of_not_mem hn] at hm
    exact hmade n m hm

/-! ## 2. The scope -/

/-- The scope exports what was loaded, and is still open. -/
theorem Ended.exports (h : p.Ended L scope acc made times w₀ w) (hapart : AllApart acc)
    (h₀ : p.Begins L used root scope made w₀) :
    ∃ s, w.scopes.scope? scope = some s ∧
      s.name = batchScopeName ∧ s.parent = some root ∧ s.children = [] ∧ s.locked = false ∧
      ∀ n, s.classes[n]? = p.exportsAfter scope acc made times n := by
  obtain ⟨s, hs, hkept⟩ := h.keeps.scopes.exists_scope h₀.scope
  refine ⟨s, hs, hkept.name, hkept.parent, hkept.children, hkept.locked, fun n => ?_⟩
  rcases mem_or_forall_ne acc n with ⟨a, ha, phase, hn⟩ | hn
  · rw [exportsAfter, stageAt_of_mem hapart ha hn]
    obtain ⟨-, s', hs', -, hclasses⟩ := (h.leaves a ha).entries.knows.scopes
    have he : s' = s := Option.some.inj (hs'.symm.trans hs)
    exact he ▸ hclasses n ⟨phase, hn⟩
  · rw [exportsAfter, stageAt_of_not_mem hn]
    rw [hkept.classes n ?_]
    · exact Std.ExtTreeMap.getElem?_empty
    · rintro ⟨⟨a, ha, ⟨phase, hm⟩ | hm⟩, hname⟩
      · exact hn a ha phase hm
      · exact entryOwner_ne_adapterOwner n _ (Eq.trans hname (congrArg some hm))

/-! ## 3. The register -/

theorem sum_coe {α β : Type} (as : List α) (f : α → List β) :
    (as.map fun a => (f a : Multiset β)).sum = (as.flatMap f : List β) := by
  induction as with
  | nil => rfl
  | cons a as ih => rw [List.map_cons, List.sum_cons, ih, List.flatMap_cons, Multiset.coe_add]

/-- The entries that the scripts of a batch have loaded. -/
structure Loaded (p : Precompiler) (scope : Nat) (acc : List (Nat × Script))
    (made : String → Option Made) (times : Nat → Phase → Instant) (ms : List Made) : Prop where
  nodup : (ms.map Made.name).Nodup
  entries : ∀ m ∈ ms, p.madeAfter scope acc made times m.name = some m
  exports : ∀ m ∈ ms, p.exportsAfter scope acc made times m.name = some m.compiled
  only : ∀ n, p.exportsAfter scope acc made times n ≠ none → ∃ m ∈ ms, m.name = n
  registered : (acc.map fun a => (p.scriptOn a.2 scope (times a.1) (stageOf made)).2.tally).sum.1 =
    (ms.map fun m => p.layout.cache.classesDir m.name : List Path)

/-- **What is loaded by the scripts of a batch** is exported, and its directories are registered. -/
theorem Ended.exists_loaded (h : p.Ended L scope acc made times w₀ w) (hmade : MadeFrom used made)
    (htakes : ∀ s ∈ used, p.layout.Takes s) (hapart : AllApart acc) (hacc : ∀ a ∈ acc, a.2 ∈ used) :
    ∃ ms, p.Loaded scope acc made times ms := by
  have hloads (a : Nat × Script) : ∃ ms, a ∈ acc →
      p.layout.cache.Loads (stageOf made) (p.scriptOn a.2 scope (times a.1) (stageOf made)).2 ms ∧
        (ms.map Made.name).Nodup ∧ ∀ m ∈ ms, ∃ phase, m.name = a.2.classNameOf phase := by
    by_cases ha : a ∈ acc
    · have hstage : MadeFrom used (stageOf made).made := hmade
      rw [scriptOn_stage]
      exact (Cache.exists_loads p.compiler scope hstage (htakes _ (hacc a ha)).fits (hacc a ha)
        (h.leaves a ha).times).imp fun ms hms _ => hms
    · exact ⟨[], fun h => absurd h ha⟩
  choose f hf using hloads
  have hstage {a : Nat × Script} (ha : a ∈ acc) {m : Made} (hm : m ∈ f a) :
      p.stageAt scope acc made times m.name =
        (p.scriptOn a.2 scope (times a.1) (stageOf made)).2 := by
    obtain ⟨phase, hname⟩ := (hf a ha).2.2 m hm
    exact stageAt_of_mem hapart ha hname
  refine ⟨acc.flatMap f, ?_, fun m hm => ?_, fun m hm => ?_, fun n hn => ?_, ?_⟩
  · rw [List.map_flatMap, List.nodup_flatMap]
    refine ⟨fun a ha => (hf a ha).2.1, hapart.imp_of_mem fun {a a'} ha ha' h n hn hn' => ?_⟩
    obtain ⟨m, hm, rfl⟩ := List.mem_map.mp hn
    -- Scripts that are apart share no name, so no class is loaded by two of them.
    obtain ⟨m', hm', he⟩ := List.mem_map.mp hn'
    obtain ⟨phase, hphase⟩ := (hf a ha).2.2 m hm
    obtain ⟨phase', hphase'⟩ := (hf a' ha').2.2 m' hm'
    exact h.2 m.name (hphase ▸ a.2.mem_names phase) (he ▸ hphase' ▸ a'.2.mem_names phase')
  · obtain ⟨a, ha, hm⟩ := List.mem_flatMap.mp hm
    rw [madeAfter, hstage ha hm]
    exact (hf a ha).1.made m hm
  · obtain ⟨a, ha, hm⟩ := List.mem_flatMap.mp hm
    rw [exportsAfter, hstage ha hm]
    exact (hf a ha).1.exports_of_mem (hf a ha).2.1 hm
  · rcases mem_or_forall_ne acc n with ⟨a, ha, phase, hname⟩ | hname
    · rw [exportsAfter, stageAt_of_mem hapart ha hname] at hn
      obtain ⟨m, hm, he⟩ := (hf a ha).1.exists_of_exports rfl hn
      exact ⟨m, List.mem_flatMap.mpr ⟨a, ha, hm⟩, he⟩
    · rw [exportsAfter, stageAt_of_not_mem hname] at hn
      exact absurd rfl hn
  · have hfst := map_list_sum (AddMonoidHom.fst (Multiset Path) (Multiset Path × ℕ))
      (acc.map fun a => (p.scriptOn a.2 scope (times a.1) (stageOf made)).2.tally)
    rw [List.map_map] at hfst
    rw [List.map_flatMap, ← sum_coe]
    refine hfst.trans (congrArg List.sum (List.map_congr_left fun a ha => ?_))
    exact (hf a ha).1.registered.trans (zero_add _)

end Precompiler

end ScriptPlugins
