import ScriptPlugins.Cache.Compile
import ScriptPlugins.Proofs.Build.Sited
import ScriptPlugins.Proofs.Job.Among
import ScriptPlugins.Proofs.Script.Names

/-!
# Sparing — compiling through the cache leaves the adapters alone

Worlds are divided by what stands in the directory for adapters of a build.  Whatever compiling does
to the cache, and however it ends, it changes none of that, and once it answers a directory is
registered.
-/

namespace ScriptPlugins

open FileTree Attempt

namespace BuildLayout

variable {b : BuildLayout} {l : Location} {S : Set Location} {J : World → Prop} {w w' : World}
  {ε : Type} {dir : Path} {r : List String}

/-! ## 1. Worlds divided by adapters -/

/-- A world with a directory for adapters, where all that waits to be packaged is in the build. -/
structure Prepared (b : BuildLayout) (l : Location) (w : World) : Prop where
  sited : b.Sited l w.files
  registered : ∀ dir ∈ w.registered, b.root.steps <+: dir.steps

/-- A change of the world that changes some adapters at most. -/
structure Keeps (b : BuildLayout) (l : Location) (S : Set Location) (w w' : World) : Prop where
  prepared : b.Prepared l w → b.Prepared l w'
  adapters : ∀ m ∈ inside (b.adaptersAt l), m ∉ S → w'.files.entry? m = w.files.entry? m
  registered : w.registered <+: w'.registered

/-- Worlds divided by what stands in the directory for adapters. -/
def division (b : BuildLayout) (l : Location) : Division Location where
  keeps := b.Keeps l
  refl _ _ := ⟨id, fun _ _ _ => rfl, List.prefix_rfl⟩
  trans h h' := ⟨fun hw => h'.prepared (h.prepared hw), fun m hm hS =>
    (h'.adapters m hm hS).trans (h.adapters m hm hS), h.registered.trans h'.registered⟩
  mono hS h := ⟨h.prepared, fun m hm hm' => h.adapters m hm fun hin => hm' (hS hin), h.registered⟩
  tick _ _ _ := ⟨fun h => ⟨h.sited, h.registered⟩, fun _ _ _ => rfl, List.prefix_rfl⟩

/-- What a job may rely on in a prepared world, while others change none but their own adapters. -/
structure Relies (b : BuildLayout) (l : Location) (S : Set Location) (J : World → Prop) : Prop where
  stable : (b.division l).Stable S J
  prepared : ∀ w, J w → b.Prepared l w

/-- Once a directory is registered, one is. -/
theorem Relies.registered (h : b.Relies l S J) : b.Relies l S fun w => J w ∧ w.registered ≠ [] where
  stable w w' hw hk := by
    refine ⟨h.stable w w' hw.1 hk, fun hnil => hw.2 ?_⟩
    have hprefix : w.registered <+: w'.registered := hk.registered
    rw [hnil] at hprefix
    exact List.prefix_nil.mp hprefix
  prepared w hw := h.prepared w hw.1

/-- Operations of a build that have nothing to do with adapters. -/
inductive Harmless (b : BuildLayout) : Op → Prop
  | observe : Harmless b .observe
  | change {c : FileChange} (hc : b.Spares c) : Harmless b (.change c)
  | alter (c : ScopeTree.Change) : Harmless b (.alter c)
  | register {dir : Path} (hdir : b.root.steps <+: dir.steps) : Harmless b (.register dir)
  | report (e : Log.Event) : Harmless b (.report e)

/-- **Such an operation changes no adapter.** -/
theorem Prepared.perform (h : b.Prepared l w) (hd : b.Direct l) {op : Op} (hop : b.Harmless op) :
    (b.division l).keeps ∅ w (op.perform w).2 := by
  cases hop with
  | observe => exact (b.division l).refl ..
  | change hc =>
    obtain ⟨hsited, hadapters⟩ := h.sited.apply hd hc
    exact ⟨fun h => ⟨hsited, h.registered⟩, fun m hm _ => hadapters m hm, List.prefix_rfl⟩
  | alter c =>
    rw [Op.perform]
    split
    · exact ⟨fun h => ⟨h.sited, h.registered⟩, fun _ _ _ => rfl, List.prefix_rfl⟩
    · exact (b.division l).refl ..
  | register hdir =>
    refine ⟨fun h => ⟨h.sited, fun dir hmem => ?_⟩, fun _ _ _ => rfl, List.prefix_append ..⟩
    rcases List.mem_append.mp hmem with hmem | hmem
    · exact h.registered dir hmem
    · exact List.mem_singleton.mp hmem ▸ hdir
  | report e => exact ⟨fun h => ⟨h.sited, h.registered⟩, fun _ _ _ => rfl, List.prefix_rfl⟩

/-! ## 2. Attempts that have nothing to do with adapters -/

section Harmless

variable (hd : b.Direct l) (hJ : b.Relies l S J)

include hd hJ

theorem heeds_perform {op : Op} (hop : b.Harmless op) :
    Heeds (b.division l) S J (Attempt.perform op : Attempt ε op.Reply) :=
  .perform hJ.stable fun w hw => (hJ.prepared w hw).perform hd hop

theorem heeds_change {c : FileChange} (hc : b.Spares c) (refused : FileError → ε) :
    Heeds (b.division l) S J (Attempt.change refused c) :=
  .change hJ.stable fun w hw => (hJ.prepared w hw).perform hd (.change hc)

theorem heeds_alter (refused : ScopeError → ε) (c : ScopeTree.Change) :
    Heeds (b.division l) S J (Attempt.alter refused c) :=
  .alter hJ.stable fun w hw => (hJ.prepared w hw).perform hd (.alter c)

theorem heeds_report (e : Log.Event) :
    Heeds (b.division l) S J (Attempt.report e : Attempt ε PUnit) := heeds_perform hd hJ (.report e)

theorem heeds_files : Heeds (b.division l) S J (Attempt.files : Attempt ε FileTree) :=
  (heeds_perform hd hJ .observe).map

theorem heeds_scopes : Heeds (b.division l) S J (Attempt.scopes : Attempt ε ScopeTree) :=
  (heeds_perform hd hJ .observe).map

theorem heeds_reuseScope (scope : Nat) : Heeds (b.division l) S J (Attempt.reuseScope scope) :=
  (heeds_alter hd hJ _ _).bind fun _ => (heeds_scopes hd hJ).bind fun _ =>
      (Heeds.of hJ.stable _).bind fun _ =>
    heeds_report hd hJ _

theorem heeds_load (k : UnitKey) (scope : Nat) : Heeds (b.division l) S J (k.load scope) := by
  have hexport : Heeds (b.division l) S J (exportDirectory scope k.classesDir) :=
    (heeds_scopes hd hJ).bind fun _ => (Heeds.of hJ.stable _).map.bind fun _ =>
      (heeds_files hd hJ).bind fun _ => (Heeds.of hJ.stable _).bind fun _ =>
      (heeds_alter hd hJ _ _).bind fun _ => (heeds_report hd hJ _).bind fun _ => .pure hJ.stable _
  exact (heeds_files hd hJ).bind fun _ => (Heeds.of hJ.stable _).bind fun _ =>
    (Heeds.of hJ.stable _).bind fun _ => hexport.adapt.map.bind fun _ =>
    (heeds_scopes hd hJ).bind fun _ => (Heeds.of hJ.stable _).bind fun _ => .pure hJ.stable _

end Harmless

/-! ## 3. The cache -/

/-- A path that goes down from the root of a build into the cache. -/
def InCache (b : BuildLayout) (q : Path) : Prop :=
  ∃ r, q.steps = b.root.steps ++ ("compiled-scripts" :: r).map .name

theorem InCache.join {q : Path} {s : String} (h : b.InCache q) (hs : IsPart s) :
    b.InCache (q.join s) := by
  obtain ⟨r, hr⟩ := h
  refine ⟨r ++ [s], ?_⟩
  rw [Path.steps_join_part hs, hr, List.append_assoc, ← List.cons_append, List.map_append,
    List.map_singleton]

theorem inCache_classes (b : BuildLayout) : b.InCache b.cachedClasses := by
  have hn : ∀ s ∈ classesNames, IsName s := by decide
  exact ⟨["classes"], Path.steps_down (fun s hs => (hn s hs).part) b.root⟩

theorem inCache_metadata (b : BuildLayout) : b.InCache b.cachedMetadata := by
  have hn : ∀ s ∈ metadataNames, IsName s := by decide
  exact ⟨["metadata"], Path.steps_down (fun s hs => (hn s hs).part) b.root⟩

theorem not_prefix_cache (r : List String) :
    ¬adaptersNames <+: "compiled-scripts" :: r ∧ ¬"compiled-scripts" :: r <+: adaptersNames := by
  constructor <;>
    · intro h
      have hhead := (List.cons_prefix_cons.mp h).1
      revert hhead
      decide

namespace InCache

variable {q : Path}

theorem makeDirectories (h : b.InCache q) : b.Spares (.makeDirectories q) := by
  obtain ⟨r, hr⟩ := h
  exact .makeDirectories (hr ▸ List.prefix_rfl) fun hp => absurd hp (not_prefix_cache r).1

theorem writeFile (h : b.InCache q) (bytes : ByteArray) : b.Spares (.writeFile q bytes) := by
  obtain ⟨r, hr⟩ := h
  exact .writeFile hr (List.cons_ne_nil _ _) (not_prefix_cache r).1

theorem removeDirectory (h : b.InCache q) : b.Spares (.removeDirectory q) := by
  obtain ⟨r, hr⟩ := h
  exact .removeDirectory hr (not_prefix_cache r).1 (not_prefix_cache r).2

theorem belowRoot (h : b.InCache q) : b.root.steps <+: q.steps := by
  obtain ⟨r, hr⟩ := h
  exact hr ▸ List.prefix_append ..

end InCache

section Cache

variable (hd : b.Direct l) (hJ : b.Relies l S J)

include hd hJ

theorem heeds_removeIfThere (hdir : b.InCache dir) :
    Heeds (b.division l) S J (removeIfThere dir) := by
  refine Heeds.bind (heeds_change hd hJ hdir.removeDirectory fun e => e).outcome fun reply => ?_
  split
  · exact .pure hJ.stable _
  · exact .pure hJ.stable _
  · exact .throw hJ.stable _

theorem heeds_remove (s : Script) (phase : Phase) :
    Heeds (b.division l) S J (b.cache.remove (s.classNameOf phase)) :=
  (heeds_removeIfThere hd hJ ((inCache_classes b).join (s.isPart_classNameOf phase))).bind fun _ =>
    heeds_removeIfThere hd hJ ((inCache_metadata b).join (s.isPart_classNameOf phase))

theorem heeds_compile (s : Script) (phase : Phase) (hook : Hook) (source : String) :
    Heeds (b.division l) S J ((b.cache.key s phase).compile hook source) := by
  have hclasses := (inCache_classes b).join (s.isPart_classNameOf phase)
  have hmetadata := (inCache_metadata b).join (s.isPart_classNameOf phase)
  have hwriteClass (steps : List Step) : Heeds (b.division l) S J
      (writeClass (b.cache.key s phase).classesDir ((b.cache.key s phase).classOf steps)) :=
    (heeds_change hd hJ hclasses.makeDirectories _).bind fun _ =>
      (heeds_change hd hJ ((hclasses.join (s.isPart_classFileName phase)).writeFile _) _).bind
        fun _ => .pure hJ.stable _
  have hwriteMetadata (m : Metadata) : Heeds (b.division l) S J
      (writeMetadata (b.cache.key s phase).metadataDir m) :=
    (heeds_change hd hJ hmetadata.makeDirectories _).bind fun _ =>
      heeds_change hd hJ ((hmetadata.join Cache.isName_metadata.part).writeFile _) _
  exact (Heeds.of hJ.stable _).bind fun steps => (heeds_perform hd hJ .observe).bind fun _ =>
    (hwriteClass steps).adapt.map.bind fun _ => (hwriteMetadata _).adapt.bind fun _ =>
    heeds_report hd hJ _

theorem heeds_compileEntry (compiler : Compiler) (s : Script) (phase : Phase) :
    Heeds (b.division l) S J (b.cache.compileEntry compiler s phase) := by
  rw [Cache.compileEntry]
  split
  · exact .throw hJ.stable _
  · exact (heeds_compile hd hJ s phase _ _).adapt.bind fun _ => heeds_report hd hJ _

theorem heeds_refresh (compiler : Compiler) (s : Script) (phase : Phase) :
    Heeds (b.division l) S J (b.cache.refresh compiler s phase) := by
  have hcompile := heeds_compileEntry hd hJ compiler s phase
  refine (heeds_files hd hJ).bind fun _ => (Heeds.of hJ.stable _).bind fun freshness => ?_
  split
  · exact (heeds_report hd hJ _).bind fun _ => .pure hJ.stable _
  · exact hcompile.bind fun _ => .pure hJ.stable _
  · exact (heeds_report hd hJ _).bind fun _ => (heeds_remove hd hJ s phase).bind fun _ =>
      hcompile.bind fun _ => .pure hJ.stable _

/-- What is true of a world where something has been compiled, or has failed to be. -/
abbrev Compiling (J : World → Prop) {α : Type} (r : Except ε α) (w : World) : Prop :=
  J w ∧ (r.isOk = true → w.registered ≠ [])

/-- Once a phase is compiled and loaded, its directory is registered. -/
theorem among_compilePhase (compiler : Compiler) (s : Script) (scope : Nat) (phase : Phase)
    (hw : J w) :
    (b.cache.compilePhase compiler s scope phase).run.Among (b.division l) S (Compiling J) w := by
  have hrest := hJ.registered
  have hin : b.InCache (b.cache.key s phase).classesDir :=
    (inCache_classes b).join (s.isPart_classNameOf phase)
  refine among_bind (heeds_refresh hd hJ compiler s phase w hw) (fun compiled w hw => ?_)
    fun _ _ h => ⟨h, fun hok => nomatch hok⟩
  have hregister : (Attempt.perform (.register (b.cache.key s phase).classesDir) :
      Attempt BuildError Unit).run.Among (b.division l) S
        (fun _ w => J w ∧ w.registered ≠ []) w := by
    intro w' hk
    have hw' := hJ.stable w w' hw hk
    have hkeeps := (hJ.prepared w' hw').perform hd (.register hin.belowRoot)
    refine ⟨(b.division l).mono (Set.empty_subset S) hkeeps,
      fun w'' hk' => hrest.stable _ w'' ?_ hk'⟩
    exact ⟨hJ.stable.of_keeps_nothing hw' hkeeps,
      List.append_ne_nil_of_right_ne_nil _ (List.cons_ne_nil _ _)⟩
  refine among_bind hregister (fun _ w hw => ?_) fun _ _ h => ⟨h.1, fun _ => h.2⟩
  have hloaded : Heeds (b.division l) S (fun w => J w ∧ w.registered ≠ []) (do
      let unit ← Attempt.adapt (Cache.loadFailure s.id) ((b.cache.key s phase).load scope)
      unless compiled do Attempt.adapt BuildError.scope (Attempt.reuseScope scope)
      return (unit, compiled)) := by
    refine (heeds_load hd hrest _ scope).adapt.bind fun unit => ?_
    cases compiled with
    | true => exact .pure hrest.stable _
    | false => exact (heeds_reuseScope hd hrest scope).adapt.bind fun _ => .pure hrest.stable _
  exact (hloaded w hw).imp fun _ _ h => ⟨h.1, fun _ => h.2⟩

/-- **Compiling a script changes no adapter**, however it ends. -/
theorem among_compileScript (compiler : Compiler) (s : Script) (scope : Nat) (hw : J w) :
    (b.cache.compileScript compiler s scope).run.Among (b.division l) S (Compiling J) w := by
  have hpreamble : Heeds (b.division l) S J (b.cache.compilePreamble compiler s scope) := by
    intro w hw
    rw [Cache.compilePreamble]
    split
    · refine among_bind (among_compilePhase hd hJ compiler s scope .preamble hw) (fun _ w hw => ?_)
        fun _ _ h => h.1
      exact Heeds.pure hJ.stable _ w hw.1
    · exact Heeds.pure hJ.stable _ w hw
  refine among_bind (hpreamble w hw) (fun _ w hw => ?_) fun _ _ h => ⟨h, fun hok => nomatch hok⟩
  refine among_bind (among_compilePhase hd hJ compiler s scope .body hw) (fun _ w hw => ?_)
    fun _ _ h => ⟨h.1, fun hok => nomatch hok⟩
  exact (Heeds.pure hJ.registered.stable _ w ⟨hw.1, hw.2 rfl⟩).imp fun _ _ h => ⟨h.1, fun _ => h.2⟩

end Cache

end BuildLayout

end ScriptPlugins
