import ScriptPlugins.Cache.Listing
import ScriptPlugins.Proofs.Cache.Contents
import ScriptPlugins.Proofs.Cache.Housing

/-!
# History — a cache cannot be told from an empty one

Scripts are compiled through a cache and its entries are removed in any order, in any scopes, with
success or without.  Whatever came before, a script that is compiled in a new scope answers what it
says, as it would with no entry at all.
-/

namespace ScriptPlugins

open FileTree Owning

/-! ## 1. Histories -/

namespace Cache

/-- A cache whose roots are there and hold nothing. -/
structure Fresh (c : Cache) (C M : Location) (w : World) : Prop where
  housed : c.Housed C M w.files
  classes : w.files.EmptyAt C
  metadata : w.files.EmptyAt M
  scopes : w.scopes.Sound
  now : w.now.valid = true

/-- The worlds that a cache may come to if some scripts are compiled through it.  Counting its
entries only looks at the files, so it is no step.  Between the steps everything but the files may
change. -/
inductive Reached (c : Cache) (C M : Location) (used : Set Script) : World → Prop where
  | start {w : World} (h : c.Fresh C M w) : Reached c C M used w
  | compile {w : World} (compiler : Compiler) (s : Script) (scope : Nat) (hs : s ∈ used)
      (h : Reached c C M used w) :
      Reached c C M used (Job.run (c.compileScript compiler s scope).run w).2
  | remove {w : World} (name : String) (hname : c.Takes name) (h : Reached c C M used w) :
      Reached c C M used (Job.run (c.remove name).run w).2
  | create {w : World} (h : Reached c C M used w) : Reached c C M used (Job.run c.create.run w).2
  | clean {w : World} (h : Reached c C M used w) : Reached c C M used (Job.run c.clean.run w).2
  | list {w : World} (h : Reached c C M used w) : Reached c C M used (Job.run c.list.run w).2
  | other {w : World} (op : Op) (hop : op.leavesFiles = true) (h : Reached c C M used w) :
      Reached c C M used (op.perform w).2
  | tick {w : World} (now : Instant) (hnow : now.valid = true) (h : Reached c C M used w) :
      Reached c C M used { w with now }

/-- What holds of a cache at any time: its entries were made from some scripts, and everything else
is as it was. -/
structure Sane (c : Cache) (C M : Location) (used : Set Script) (t : FileTree) (w : World) :
    Prop where
  housed : c.Housed C M w.files
  others : SameOutside (subtree C ∪ subtree M) t w.files
  scopes : w.scopes.Sound
  now : w.now.valid = true
  entries : ∃ made, MadeFrom used made ∧
    c.Shelf (owning C M 0) C M Set.univ (Boxes.ofMade ∘ made) w.files

variable {c : Cache} {C M : Location} {used : Set Script} {t : FileTree} {w : World} {s : Script}

theorem Fresh.sane (h : c.Fresh C M w) : c.Sane C M used w.files w :=
  ⟨h.housed, .refl _ _, h.scopes, h.now, fun _ => none, (fun _ _ hm => nomatch hm),
    h.housed.shelf h.classes h.metadata⟩

theorem sound_perform (op : Op) (h : w.scopes.Sound) : (op.perform w).2.scopes.Sound := by
  cases op with
  | newScope parent name =>
    rw [Op.perform]
    split
    next ht => exact h.newChild ht
    next => exact h
  | alter c =>
    rw [Op.perform]
    split
    next ht => exact h.apply ht
    next => exact h
  | _ => exact h

theorem ofFiles_sane : Attempt.OfFiles (c.Sane C M used t) := by
  intro op w hop h
  have hf := Op.files_perform hop w
  refine ⟨hf ▸ h.housed, hf ▸ h.others, sound_perform op h.scopes,
    (Op.now_perform op w).symm ▸ h.now, ?_⟩
  rw [hf]
  exact h.entries

/-! ## 2. What every step keeps -/

/-- The scopes are sound, and that is all that is known of them. -/
def soundFrame (o : Owning) : o.Frame Set.univ := ⟨ScopeTree.Sound, fun _ _ h hk => hk.sound h⟩

theorem Sane.records (h : c.Sane C M used t w) (scope : Nat) : ∃ made, MadeFrom used made ∧
    c.Records (owning C M scope) C M (soundFrame _) made w := by
  obtain ⟨made, hmade, hshelf⟩ := h.entries
  exact ⟨made, hmade, ⟨hshelf.rescope scope, h.scopes, h.now⟩,
    fun n _ m hm => ⟨(hmade n m hm).1, (hmade n m hm).2.1⟩⟩

theorem Sane.of_knows {scope : Nat} {w' : World} {made : String → Option Made}
    (h : c.Sane C M used t w) (hk : (owning C M scope).Keeps Set.univ w w')
    (hrec : c.Knows (owning C M scope) C M (soundFrame _) (Boxes.ofMade ∘ made) w')
    (hmade : MadeFrom used made) : c.Sane C M used t w' :=
  have hsame : SameOutside (subtree C ∪ subtree M) w.files w'.files :=
    hk.files.mono ((region_subset_owned _).trans owned_subset)
  ⟨h.housed.stays hsame, h.others.trans hsame, hrec.scopes, hrec.now, made, hmade,
    hrec.shelf.rescope 0⟩

theorem madeFrom_update {made : String → Option Made} (h : MadeFrom used made) {name : String}
    {entry : Option Made}
    (hnew : ∀ m, entry = some m → m.name = name ∧ m.Sound ∧ m.script ∈ used) :
    MadeFrom used (Function.update made name entry) := by
  intro n m hm
  by_cases he : n = name
  · subst he
    rw [Function.update_self] at hm
    exact hnew m hm
  · rw [Function.update_of_ne he] at hm
    exact h n m hm

/-- Making an entry fresh. -/
theorem preserves_refresh (compiler : Compiler) (phase : Phase) (hs : s.FitsIn c)
    (hmem : s ∈ used) :
    Attempt.Preserves (c.Sane C M used t) (c.refresh compiler s phase) := by
  intro w h
  obtain ⟨made, hmade, hrec⟩ := h.records 0
  obtain ⟨hk, d, -, -, now, hnow, hentry⟩ := (ends_refresh compiler (e := 0)
    (h.housed.seat 0) (Set.mem_univ _) (hs.names phase) hs.lines hrec).run
  cases hfor : s.entryFor compiler phase now (made (s.classNameOf phase)) with
  | error err =>
    rw [hfor] at hentry
    exact h.of_knows hk hentry.2.knows (madeFrom_update hmade fun _ h => nomatch h)
  | ok m =>
    rw [hfor] at hentry
    refine h.of_knows hk hentry.2.knows (madeFrom_update hmade fun m' hm' => ?_)
    cases hm'
    obtain ⟨hname, hsound⟩ := hentry.2.sound _ (Set.mem_univ _) m (Function.update_self ..)
    refine ⟨hname, hsound, ?_⟩
    rcases Script.entryFor_eq_ok hfor with ⟨hm, -⟩ | ⟨-, steps, -, rfl⟩
    · exact (hmade _ m hm).2.2
    · exact hmem

/-- Loading a unit changes no file. -/
theorem leavesFiles_load (k : UnitKey) (scope : Nat) : Attempt.LeavesFiles (k.load scope) := by
  have hexport : Attempt.LeavesFiles (exportDirectory scope k.classesDir) :=
    Attempt.LeavesFiles.scopes.bind fun _ => (Attempt.LeavesFiles.of _).map.bind fun _ =>
      Attempt.LeavesFiles.files.bind fun _ => (Attempt.LeavesFiles.of _).bind fun _ =>
        (Attempt.LeavesFiles.alter _ _).bind fun _ => (Attempt.LeavesFiles.report _).bind fun _ =>
          .pure _
  exact Attempt.LeavesFiles.files.bind fun _ => (Attempt.LeavesFiles.of _).bind fun _ =>
    (Attempt.LeavesFiles.of _).bind fun _ => hexport.adapt.map.bind fun _ =>
    Attempt.LeavesFiles.scopes.bind fun _ => (Attempt.LeavesFiles.of _).bind fun _ => .pure _

/-- Neither does anything else that is done with an entry once it is fresh. -/
theorem leavesFiles_loadPhase (phase : Phase) (scope : Nat) (compiled : Bool) :
    Attempt.LeavesFiles (c.loadPhase s scope phase compiled) := by
  refine (Attempt.LeavesFiles.perform rfl).bind fun _ => ?_
  refine (leavesFiles_load _ scope).adapt.bind fun unit => ?_
  cases compiled with
  | true => exact .pure _
  | false => exact (Attempt.LeavesFiles.reuseScope scope).adapt.bind fun _ => .pure _

/-- Compiling a script, in whatever scope and however it ends. -/
theorem preserves_compileScript (compiler : Compiler) (scope : Nat) (hs : s.FitsIn c)
    (hmem : s ∈ used) :
    Attempt.Preserves (c.Sane C M used t) (c.compileScript compiler s scope) := by
  have hphase (phase : Phase) :
      Attempt.Preserves (c.Sane C M used t) (c.compilePhase compiler s scope phase) :=
    (preserves_refresh compiler phase hs hmem).bind fun compiled =>
      (leavesFiles_loadPhase phase scope compiled).preserves ofFiles_sane
  have hpreamble : Attempt.Preserves (c.Sane C M used t) (c.compilePreamble compiler s scope) := by
    rw [compilePreamble]
    split
    · exact (hphase .preamble).bind fun _ => .pure _
    · exact .pure _
  exact hpreamble.bind fun _ => (hphase .body).bind fun _ => .pure _

theorem preserves_remove {name : String} (hname : c.Takes name) :
    Attempt.Preserves (c.Sane C M used t) (c.remove name) := by
  intro w h
  obtain ⟨made, hmade, hrec⟩ := h.records 0
  obtain ⟨hk, d, -, -, -, -, hknows⟩ := (answers_remove (e := 0) (h.housed.seat 0)
    (Set.mem_univ name) hname hrec.knows).run
  have hnone : Function.update (Boxes.ofMade ∘ made) name .none =
      Boxes.ofMade ∘ Function.update made name none := by rw [Function.comp_update]; rfl
  rw [hnone] at hknows
  exact h.of_knows hk hknows (madeFrom_update hmade fun _ h => nomatch h)

theorem preserves_clean : Attempt.Preserves (c.Sane C M used t) c.clean := by
  intro w h
  obtain ⟨made, hmade, hshelf⟩ := h.entries
  obtain ⟨t, hrun, hsame, hC, hM⟩ :=
    h.housed.run_clean hshelf.classesRoot.directory hshelf.metadataRoot.directory
  rw [hrun]
  have hh : c.Housed C M t := h.housed.stays hsame
  exact ⟨hh, h.others.trans hsame, h.scopes, h.now, fun _ => none, (fun _ _ hm => nomatch hm),
    hh.shelf hC hM⟩

theorem preserves_list : Attempt.Preserves (c.Sane C M used t) c.list := by
  have hleaves : Attempt.LeavesFiles c.list := by
    refine Attempt.LeavesFiles.files.bind fun t => (Attempt.LeavesFiles.of _).bind fun entries => ?_
    refine Attempt.LeavesFiles.bind (.forIn _ _ fun entry listed => ?_) fun _ => .pure _
    obtain ⟨name, metadata⟩ := entry
    cases metadata with
    | ok m => exact .pure _
    | error e => exact (Attempt.LeavesFiles.report _).bind fun _ => .pure _
  exact hleaves.preserves ofFiles_sane

/-- Roots that are there stay. -/
theorem preserves_create : Attempt.Preserves (c.Sane C M used t) c.create := by
  intro w h
  obtain ⟨made, -, hshelf⟩ := h.entries
  rw [h.housed.run_create hshelf.classesRoot.directory hshelf.metadataRoot.directory]
  exact h

/-- Nothing that happens to a cache brings it out of order. -/
theorem Reached.sane (hused : ∀ s ∈ used, s.FitsIn c) (h : c.Reached C M used w) :
    ∃ t, c.Sane C M used t w := by
  induction h with
  | start h => exact ⟨_, h.sane⟩
  | compile compiler s scope hs _ ih =>
    exact ih.imp fun _ h => preserves_compileScript compiler scope (hused s hs) hs _ h
  | remove name hname _ ih => exact ih.imp fun _ h => preserves_remove hname _ h
  | create _ ih => exact ih.imp fun _ h => preserves_create _ h
  | clean _ ih => exact ih.imp fun _ h => preserves_clean _ h
  | list _ ih => exact ih.imp fun _ h => preserves_list _ h
  | other op hop _ ih => exact ih.imp fun _ h => ofFiles_sane op _ hop h
  | tick now hnow _ ih =>
    exact ih.imp fun _ h => ⟨h.housed, h.others, h.scopes, hnow, h.entries⟩

/-! ## 3. Compiling in a new scope -/

/-- Compiles a script in a new scope below another one. -/
def compileInChild (c : Cache) (compiler : Compiler) (s : Script) (parent : Nat) (name : String) :
    Attempt BuildError CompiledScript := do
  let scope ← Attempt.adapt .scope (Attempt.newScope parent name)
  c.compileScript compiler s scope

/-- A new scope is open and exports nothing. -/
theorem exports_grown {o : Owning} {K : Set String} {t : ScopeTree} {parent : Nat} {s : Scope}
    (ht : t.Sound) (hs : t.scope? parent = some s) (ho : o.scope = t.slots.length) (name : String) :
    o.Exports K (fun _ => none) (t.grown parent s name) :=
  ⟨ht.grown hs name, _, by rw [ho, ScopeTree.scope?_grown_new hs], rfl, fun _ _ =>
    Std.ExtTreeMap.getElem?_empty⟩

/-- A world with one more scope. -/
def grownWorld (w : World) (parent : Nat) (sc : Scope) (name : String) : World :=
  { w with
    scopes := w.scopes.grown parent sc name
    log := w.log ++ [.scopeCreated name parent] }

theorem run_compileInChild {parent : Nat} {sc : Scope} (hsc : w.scopes.scope? parent = some sc)
    (compiler : Compiler) (name : String) :
    Job.run (c.compileInChild compiler s parent name).run w =
      Job.run (c.compileScript compiler s w.scopes.slots.length).run
        (grownWorld w parent sc name) :=
  Attempt.run_bind_ok (Attempt.run_adapt (Attempt.run_newScope hsc name))

theorem Sane.on_grown (h : c.Sane C M used t w) {parent : Nat} {sc : Scope}
    (hsc : w.scopes.scope? parent = some sc) (name : String) : ∃ made, MadeFrom used made ∧
      c.On (owning C M w.scopes.slots.length) C M Set.univ ⟨made, fun _ => none, 0⟩
        (grownWorld w parent sc name) := by
  obtain ⟨made, hmade, hshelf⟩ := h.entries
  exact ⟨made, hmade, ⟨hshelf.rescope _, exports_grown h.scopes hsc rfl name, h.now⟩,
    fun n _ m hm => ⟨(hmade n m hm).1, (hmade n m hm).2.1⟩⟩

/-- A script that is compiled in a new scope answers what it says. -/
theorem Sane.content_compileInChild (h : c.Sane C M used t w) (hs : s.FitsIn c)
    (hsource : Unmistaken used s) {parent : Nat} (hparent : w.scopes.isLive parent = true)
    (name : String) :
    (Job.run (c.compileInChild .steady s parent name).run w).1.map CompiledScript.content =
      s.content := by
  obtain ⟨sc, hsc⟩ := Option.isSome_iff_exists.mp hparent
  obtain ⟨made, hmade, hon⟩ := h.on_grown hsc name
  obtain ⟨-, -, -, times, -, g', hg', -⟩ := (ends_compileScript .steady
    (h.housed.seat _) (fun _ => Set.mem_univ _) hs hon fun _ => rfl).run
  let g : Stage := ⟨made, fun _ => none, 0⟩
  have hcontent :
      (c.scriptOn .steady s w.scopes.slots.length times g).1.map CompiledScript.content =
        s.content :=
    content_scriptOn hsource hmade times
  rw [run_compileInChild hsc, ← hcontent]
  exact congrArg (fun r => Except.map CompiledScript.content r.1) hg'.symm

/-- A script whose phases compile answers in every new scope. -/
theorem Sane.exists_compileInChild (h : c.Sane C M used t w) (hs : s.FitsIn c)
    (hsource : Unmistaken used s) (hok : s.content.isOk = true) {parent : Nat}
    (hparent : w.scopes.isLive parent = true) (name : String) :
    ∃ script w', Job.run (c.compileInChild .steady s parent name).run w = (.ok script, w') := by
  obtain ⟨content, hsays⟩ := exists_ok hok
  have hcontent := h.content_compileInChild hs hsource hparent name
  obtain ⟨script, hscript, -⟩ := map_eq_ok (hcontent.trans hsays)
  exact ⟨script, _, Prod.ext hscript rfl⟩

/-- A new scope is part of the history. -/
theorem Reached.grown (h : c.Reached C M used w) {parent : Nat} {sc : Scope}
    (hsc : w.scopes.scope? parent = some sc) (name : String) :
    c.Reached C M used (grownWorld w parent sc name) := by
  have hnew := (h.other (.newScope parent name) rfl).other (.report (.scopeCreated name parent)) rfl
  have hgrown : (Op.perform (.newScope parent name) w).2 =
      { w with scopes := w.scopes.grown parent sc name } := by
    rw [Op.perform, ScopeTree.newChild_eq_ok hsc]
  rwa [hgrown] at hnew

/-- A script that is compiled in a new scope is part of the history. -/
theorem Reached.compileInChild (h : c.Reached C M used w) (compiler : Compiler) (hs : s ∈ used)
    {parent : Nat} (hparent : w.scopes.isLive parent = true)
    (name : String) :
    c.Reached C M used (Job.run (c.compileInChild compiler s parent name).run w).2 := by
  obtain ⟨sc, hsc⟩ := Option.isSome_iff_exists.mp hparent
  rw [run_compileInChild hsc]
  exact (h.grown hsc name).compile compiler s _ hs

/-- A script that is compiled in a new scope leaves the others open. -/
theorem Sane.isLive_compileInChild (h : c.Sane C M used t w) (compiler : Compiler) (hs : s.FitsIn c)
    {parent : Nat} (hparent : w.scopes.isLive parent = true) (name : String) :
    (Job.run (c.compileInChild compiler s parent name).run w).2.scopes.isLive parent = true := by
  obtain ⟨sc, hsc⟩ := Option.isSome_iff_exists.mp hparent
  obtain ⟨made, -, hon⟩ := h.on_grown hsc name
  have hkept := (ends_compileScript compiler (h.housed.seat _) (fun _ => Set.mem_univ _) hs hon
    fun _ => rfl).run.1.scopes
  have hlt := ScopeTree.lt_of_scope? hsc
  rw [run_compileInChild hsc]
  refine (congrArg Option.isSome (hkept.others parent hlt.ne)).trans ?_
  rw [grownWorld, ScopeTree.scope?_grown hsc, if_neg hlt.ne, if_pos rfl]
  rfl

/-- **The cache is transparent.**  If no two sources used have one digest, then whatever was
compiled and removed before, a script that is compiled in a new scope answers what it answers with
an empty cache, apart from which phases had to be compiled. -/
theorem compileScript_transparent (hfits : ∀ s ∈ used, s.FitsIn c)
    (hused : Set.InjOn Sha256.digestText (Script.source '' used)) (h : c.Reached C M used w)
    {w₀ : World} (h₀ : c.Fresh C M w₀) (hs : s ∈ used) {parent parent₀ : Nat}
    (hparent : w.scopes.isLive parent = true) (hparent₀ : w₀.scopes.isLive parent₀ = true)
    (name name₀ : String) :
    (Job.run (c.compileInChild .steady s parent name).run w).1.map CompiledScript.content =
      (Job.run (c.compileInChild .steady s parent₀ name₀).run w₀).1.map CompiledScript.content := by
  have hsource : Unmistaken used s := fun other ho he =>
    hused (Set.mem_image_of_mem _ ho) (Set.mem_image_of_mem _ hs) he
  have hfit := hfits s hs
  have hempty : c.Sane C M used w₀.files w₀ := h₀.sane
  obtain ⟨t, hsane⟩ := h.sane hfits
  rw [hsane.content_compileInChild hfit hsource hparent,
    hempty.content_compileInChild hfit hsource hparent₀]

/-- Two roots beside each other. -/
def small : Cache := ⟨⟨"c"⟩, ⟨"m"⟩⟩

/-- A world that holds both roots and nothing else. -/
def smallWorld : World where
  files := ((FileTree.empty []).put ["c"] .directory).put ["m"] .directory
  scopes := .root "core"
  registered := []
  log := []
  now := .sinceEpoch 0

def smallScript : Script := ⟨"a", .project, "println 'x'", none⟩

theorem leads_name {s : String} (hs : IsName s) {S : Set Location} {t t' : FileTree} {p : Path}
    (ht : t.here = []) (hp : p.steps = [.name s]) (h : SameOutside S t t') :
    t'.walk t'.here p.steps = .ok [s] := by
  rw [h.here, ht, hp]
  exact walk_name (entry?_nil t') hs

theorem entry?_smallWorld (l : Location) (hl : l ≠ []) : smallWorld.files.entry? l =
    if l = ["m"] then some .directory else if l = ["c"] then some .directory else none := by
  have hempty : FileTree.entry? (.empty []) l = none := by
    rw [entry?_of_ne_nil _ hl]
    exact Std.ExtTreeMap.getElem?_empty
  rw [smallWorld, entry?_put _ (by decide), entry?_put _ (by decide), hempty]

theorem fresh_smallWorld : small.Fresh ["c"] ["m"] smallWorld where
  housed := {
    classesPath := ⟨by decide, by decide, "c", by decide⟩
    metadataPath := ⟨by decide, by decide, "m", by decide⟩
    classesLeads := fun _ h => leads_name (by decide) rfl (by decide) h
    metadataLeads := fun _ h => leads_name (by decide) rfl (by decide) h
    apart := by decide
    apart' := by decide }
  classes := ⟨rfl, fun s r => by rw [entry?_smallWorld _ (by simp)]; simp⟩
  metadata := ⟨rfl, fun s r => by rw [entry?_smallWorld _ (by simp)]; simp⟩
  scopes := ScopeTree.sound_root "core"
  now := by decide

theorem fitsIn_smallScript : smallScript.FitsIn small :=
  .of_short ⟨by decide +kernel, by decide +kernel, by decide +kernel⟩
    ⟨by decide +kernel, by decide +kernel, by decide +kernel⟩ (by decide +kernel)
      (by decide +kernel)

theorem unmistaken_smallScript : Unmistaken {smallScript} smallScript := fun _ hother _ =>
  congrArg Script.source hother

/-- The script answers whenever it is compiled in a new scope. -/
theorem exists_compileInChild_small {t : FileTree} {w : World}
    (h : small.Sane ["c"] ["m"] {smallScript} t w) (hroot : w.scopes.isLive 0 = true)
    (name : String) :
    ∃ script w', Job.run (small.compileInChild .steady smallScript 0 name).run w =
      (.ok script, w') :=
  h.exists_compileInChild fitsIn_smallScript unmistaken_smallScript (by decide +kernel) hroot name

/-- The theorem for a script that is compiled a second time. -/
theorem compileScript_transparent_again :
    (Job.run (small.compileInChild .steady smallScript 0 "again").run
      (Job.run (small.compileInChild .steady smallScript 0 "first").run smallWorld).2).1.map
        CompiledScript.content =
      (Job.run (small.compileInChild .steady smallScript 0 "first").run smallWorld).1.map
        CompiledScript.content := by
  have hfit := fitsIn_smallScript
  have hroot : smallWorld.scopes.isLive 0 = true := rfl
  have hstart : small.Reached ["c"] ["m"] {smallScript} smallWorld := .start fresh_smallWorld
  have hsane : small.Sane ["c"] ["m"] {smallScript} smallWorld.files smallWorld :=
    fresh_smallWorld.sane
  exact compileScript_transparent (fun s hs => (show s = smallScript from hs) ▸ hfit)
    (by rw [Set.image_singleton]; exact Set.injOn_singleton ..)
    (hstart.compileInChild .steady rfl hroot "first") fresh_smallWorld rfl
    (hsane.isLive_compileInChild .steady hfit hroot "first") hroot _ _

end Cache

end ScriptPlugins
