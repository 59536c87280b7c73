import ScriptPlugins.Batch.Output
import ScriptPlugins.Proofs.Batch.Packaging
import ScriptPlugins.Proofs.Job.Preserving
import ScriptPlugins.Proofs.Scope.Exporting

/-!
# Output — what is packaged is seen through the opened output

All class files that were packaged can be read, so opening them never fails.  A scope below the
opened output sees each packaged class under its name, whatever the scopes above export.
-/

namespace ScriptPlugins

open FileTree BuildLayout

/-! ## 1. Scopes -/

namespace ScopeTree

variable {t : ScopeTree} {id above : Nat} {s s' : Scope} {name : String} {c : CompiledClass}

/-- What a scope does not export is what the one above it exports. -/
theorem Sound.resolve_above (ht : t.Sound) (h : t.scope? id = some s) (hp : s.parent = some above)
    (hnone : s.classes[name]? = none) (h' : t.scope? above = some s')
    (hc : s'.classes[name]? = some c) : t.resolve id name = .ok c := by
  obtain ⟨hlt, -⟩ := ht.parent id above ((parent?_eq h).trans hp)
  obtain ⟨ids, hids, hlive⟩ := ht.chain h'
  obtain ⟨ss, hss, -⟩ := mapM_get hlive
  have hchain : t.chain id = .ok (id :: above :: ids) := by
    rw [ScopeTree.chain, get_of_scope? h]
    simp only [hp, if_pos hlt, hids]
    rfl
  have habove : t.above id = .ok (s :: s' :: ss) := by
    rw [ScopeTree.above, hchain]
    show (id :: above :: ids).mapM t.get = _
    rw [List.mapM_cons, get_of_scope? h, List.mapM_cons, get_of_scope? h', hss]
    rfl
  simp only [resolve, habove, bind, Except.bind, List.findSome?_cons, hnone, hc]

/-- A new scope sees what the scope exports that it is made below. -/
theorem Sound.resolve_grown (ht : t.Sound) (h : t.scope? id = some s)
    (hc : s.classes[name]? = some c) (child : String) :
    (t.grown id s child).resolve t.slots.length name = .ok c := by
  have hne : id ≠ t.slots.length := (lt_of_scope? h).ne
  have hold : (t.grown id s child).scope? id =
      some { s with children := s.children ++ [t.slots.length] } := by
    rw [scope?_grown h, if_neg hne, if_pos rfl]
  exact (ht.grown h child).resolve_above (scope?_grown_new h child) rfl
    Std.ExtTreeMap.getElem?_empty hold hc

end ScopeTree

/-! ## 2. Reading what was packaged -/

/-- If every part answers, all do, with what the parts answer and nothing else. -/
theorem exists_mapM_eq_ok {ε α β : Type} {f : α → Except ε β} {as : List α} {P : α → β → Prop}
    (h : ∀ a ∈ as, ∃ b, f a = .ok b ∧ P a b) : ∃ bs, as.mapM f = .ok bs ∧
      (∀ a ∈ as, ∃ b ∈ bs, P a b) ∧ ∀ b ∈ bs, ∃ a ∈ as, P a b := by
  obtain ⟨bs, hbs⟩ := exists_map_ok fun a ha => (h a ha).imp fun _ hb => hb.1
  have hmem {b : β} : b ∈ bs ↔ ∃ a ∈ as, f a = .ok b := by
    rw [← List.mem_map, hbs, List.mem_map_of_injective fun _ _ => Except.ok.inj]
  refine ⟨bs, mapM_eq_ok_iff.mpr hbs, fun a ha => ?_, fun b hb => ?_⟩
  · obtain ⟨b, hb, hab⟩ := h a ha
    exact ⟨b, hmem.mpr ⟨a, ha, hb⟩, hab⟩
  · obtain ⟨a, ha, hb⟩ := hmem.mp hb
    obtain ⟨b', hb', hab⟩ := h a ha
    cases hb.symm.trans hb'
    exact ⟨a, ha, hab⟩

/-- A class that a build can package and read back, under its name. -/
structure BuildLayout.Carries (b : BuildLayout) (n : String) (c : CompiledClass) : Prop where
  name : c.name = n
  readable : c.Readable
  isName : IsName (classFileName n)
  fits : Fits (b.outputClasses.join (classFileName n))

variable {b : BuildLayout} {L : Location} {x : String → Option CompiledClass} {t₀ t : FileTree}
  {u : World} {root : Nat} {s : Scope}

theorem isClassFileName_packagedMetadata : isClassFileName packagedMetadata = false := by decide

theorem Packaged.locate (h : Packaged x L t₀ t) (hp : Standing (inside L) t b.root L)
    (hfit : b.Fitting) : t.locate b.outputClasses = .ok (L ++ packagedNames) := by
  have hnames : ∀ s ∈ packagedNames, IsName s := by decide
  have hfits : Fits (b.root.down packagedNames) := hfit.packaged
  have hlocate := locate_down hp hnames (by decide) hfits h.paved.way
  rwa [outputClasses_eq]

/-- What stands in the file of a class that was exported. -/
theorem Packaged.look (h : Packaged x L t₀ t) (hp : Standing (inside L) t b.root L) {n : String}
    {c : CompiledClass} (hc : b.Carries n c) (hn : x n = some c) :
    t.look (b.outputClasses.join (classFileName n)) = .ok (.file c.print.toUTF8) := by
  have hnames : ∀ s ∈ packagedNames ++ [classFileName n], IsName s := by
    intro s hs
    rcases List.mem_append.mp hs with hs | hs
    · exact (by decide : ∀ s ∈ packagedNames, IsName s) s hs
    · exact List.mem_singleton.mp hs ▸ hc.isName
  have hpath : b.outputClasses.join (classFileName n) =
      b.root.down (packagedNames ++ [classFileName n]) := by
    rw [Path.down_concat, outputClasses_eq]
  have hlocate := locate_down hp hnames (by simp) (hpath ▸ hc.fits)
    (h.paved.way.concat (.inr (h.paved.directory (by decide))) (classFileName n))
  rw [hpath]
  refine look_of_locate hlocate ?_
  rw [← List.append_assoc, h.classes, hn]
  rfl

/-- The class files that are packaged are those of the classes that were exported. -/
theorem Packaged.mem_files (h : Packaged x L t₀ t) (hp : Standing (inside L) t b.root L)
    (hx : ∀ n c, x n = some c → b.Carries n c) (name : String) :
    name ∈ ((t.children (L ++ packagedNames)).reverse.map Prod.fst).filter (fun name =>
      isClassFileName name && t.isFile (b.outputClasses.join name)) ↔
      ∃ n c, x n = some c ∧ name = classFileName n := by
  rw [List.mem_filter, Bool.and_eq_true, List.mem_map]
  constructor
  · rintro ⟨⟨⟨name, e⟩, he, rfl⟩, hclass, -⟩
    rw [List.mem_reverse, mem_children] at he
    simp only at hclass ⊢
    have hne : name ≠ packagedMetadata := by
      rintro rfl
      rw [isClassFileName_packagedMetadata] at hclass
      cases hclass
    by_cases hfile : ∃ n, name = classFileName n
    · obtain ⟨n, rfl⟩ := hfile
      rw [h.classes] at he
      obtain ⟨c, hc, -⟩ := Option.map_eq_some_iff.mp he
      exact ⟨n, c, hc, rfl⟩
    · rw [h.nothing name [] hne fun n hn => hfile ⟨n, (List.cons.inj hn).1⟩] at he
      cases he
  · rintro ⟨n, c, hn, rfl⟩
    refine ⟨⟨(classFileName n, .file c.print.toUTF8), ?_, rfl⟩,
      Cache.isClassFileName_classFileName n, isFile_of_look (h.look hp (hx n c hn) hn)⟩
    rw [List.mem_reverse, mem_children, h.classes, hn]
    rfl

/-- **What was packaged can be read**: the classes that were exported, and nothing else. -/
theorem Packaged.readClasses (h : Packaged x L t₀ t) (hp : Standing (inside L) t b.root L)
    (hfit : b.Fitting) (hx : ∀ n c, x n = some c → b.Carries n c) :
    ∃ cs, t.readClasses b.outputClasses = .ok cs ∧ ∀ c, c ∈ cs ↔ x c.name = some c := by
  have hmem := h.mem_files hp hx
  rw [FileTree.readClasses, list_of_locate (h.locate hp hfit) (h.paved.directory (by decide))]
  simp only
  generalize ((t.children (L ++ packagedNames)).reverse.map Prod.fst).filter (fun name =>
    isClassFileName name && t.isFile (b.outputClasses.join name)) = names at hmem ⊢
  have hread : ∀ name ∈ names, ∃ c, t.readClass (b.outputClasses.join name) = .ok c ∧
      (x c.name = some c ∧ name = classFileName c.name) := by
    intro name hname
    obtain ⟨n, c, hn, rfl⟩ := (hmem name).mp hname
    obtain rfl := (hx n c hn).name
    refine ⟨c, ?_, hn, rfl⟩
    rw [FileTree.readClass, readText_of_look (h.look hp (hx c.name c hn) hn)]
    simp only [CompiledClass.read_print (hx c.name c hn).readable]
  obtain ⟨cs, hcs, hof, hto⟩ := exists_mapM_eq_ok hread
  refine ⟨_, by rw [hcs]; rfl, fun c => ?_⟩
  rw [List.mem_mergeSort]
  constructor
  · intro hc
    obtain ⟨name, -, hx', -⟩ := hto c hc
    exact hx'
  · intro hc
    obtain ⟨c', hc', hx', hname⟩ := hof _ ((hmem _).mpr ⟨c.name, c, hc, rfl⟩)
    have he : c.name = c'.name := classFileName_inj hname
    rw [he, hx'] at hc
    exact Option.some.inj hc ▸ hc'

/-! ## 3. Opening the output -/

/-- A scope that exports some classes and is locked. -/
def ScopeTree.Exposes (t : ScopeTree) (id : Nat) (x : String → Option CompiledClass) : Prop :=
  ∃ s, t.scope? id = some s ∧ s.locked = true ∧ ∀ n, s.classes[n]? = x n

/-- A new scope that takes classes exports them under their names, and nothing else. -/
theorem getElem?_taking {cs : List CompiledClass} (hmem : ∀ c, c ∈ cs ↔ x c.name = some c)
    (hname : ∀ n c, x n = some c → c.name = n) (name : String) (parent : Option Nat) (dir : Path)
    (n : String) : ((Scope.fresh name parent).taking dir cs).classes[n]? = x n := by
  have hfold : ((Scope.fresh name parent).taking dir cs).classes[n]? =
      if ∃ c ∈ cs, c.name = n then x n else (∅ : Std.ExtTreeMap String CompiledClass)[n]? :=
    getElem?_foldl_insert (fun c hc => (hmem c).mp hc) ∅ n
  rw [hfold]
  split
  · rfl
  next hnone =>
    cases hn : x n with
    | none => exact Std.ExtTreeMap.getElem?_empty
    | some c =>
      obtain rfl := hname n c hn
      exact absurd ⟨c, (hmem c).mpr hn, rfl⟩ hnone

/-- **The output opens**, below any live scope, and exposes what was packaged. -/
theorem Packaged.run_openOutput (h : Packaged x L t₀ u.files)
    (hp : Standing (inside L) u.files b.root L) (hfit : b.Fitting)
    (hx : ∀ n c, x n = some c → b.Carries n c) (hsound : u.scopes.Sound)
    (hroot : u.scopes.scope? root = some s) :
    ∃ scopes log, Job.run (b.openOutput root).run u =
        (.ok u.scopes.slots.length, { u with scopes, log }) ∧ scopes.Sound ∧
      scopes.Exposes u.scopes.slots.length x := by
  obtain ⟨cs, hcs, hmem⟩ := h.readClasses hp hfit hx
  generalize hout : u.scopes.slots.length = out
  -- The states on the way: the new scope, the directory exported into it, and the scope locked.
  let w₁ : World := { u with
    scopes := u.scopes.grown root s outputScopeName
    log := u.log ++ [.scopeCreated outputScopeName root] }
  have hnew : Job.run (Attempt.adapt BuildError.scope (Attempt.newScope root outputScopeName)).run
      u = (.ok out, w₁) := hout ▸ Attempt.run_adapt (Attempt.run_newScope hroot outputScopeName)
  have hgrown : w₁.scopes.Sound := hsound.grown hroot outputScopeName
  have hfresh : w₁.scopes.scope? out = some (.fresh outputScopeName (some root)) :=
    hout ▸ ScopeTree.scope?_grown_new hroot outputScopeName
  have hdirectory : u.files.isDirectory b.outputClasses = true :=
    isDirectory_of_locate (h.locate hp hfit) (h.paved.directory (by decide))
  let full : Scope := (Scope.fresh outputScopeName (some root)).taking b.outputClasses cs
  have hclasses (n : String) : full.classes[n]? = x n :=
    getElem?_taking hmem (fun n c hn => (hx n c hn).name) outputScopeName (some root)
      b.outputClasses n
  have hset : (w₁.scopes.set out full).Sound := hgrown.set hfresh rfl
  have hscope : (w₁.scopes.set out full).scope? out = some full := by
    rw [ScopeTree.scope?_set (ScopeTree.lt_of_scope? hfresh), if_pos rfl]
  let w₂ : World := { w₁ with
    scopes := w₁.scopes.set out full
    log := w₁.log ++ [.directoryExported outputScopeName b.outputClasses.text cs.length] }
  have hread : Job.run (discard (Attempt.adapt BuildError.scope
      (exportDirectory out b.outputClasses))).run w₁ = (.ok (), w₂) :=
    Attempt.run_bind_ok (Attempt.run_adapt (run_exportDirectory hfresh rfl hcs fun _ _ =>
      Std.ExtTreeMap.getElem?_empty))
  have hlock : Job.run (Attempt.adapt BuildError.scope (Attempt.lockScope out)).run w₂ = _ :=
    Attempt.run_adapt (Attempt.run_lockScope hscope rfl)
  refine ⟨(w₁.scopes.set out full).set out { full with locked := true },
    w₂.log ++ [.scopeLocked full.name], ?_, hset.set hscope rfl,
    { full with locked := true }, ?_, rfl, hclasses⟩
  · rw [openOutput, Attempt.run_bind_ok hnew, Attempt.run_bind_ok (Attempt.run_files w₁),
      hdirectory, if_pos rfl, Attempt.run_bind_ok hread, Attempt.run_bind_ok hlock]
    rfl
  · rw [ScopeTree.scope?_set (ScopeTree.lt_of_scope? hscope), if_pos rfl]

end ScriptPlugins
