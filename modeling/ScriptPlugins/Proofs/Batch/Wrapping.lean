import ScriptPlugins.Proofs.Batch.Closing
import ScriptPlugins.Proofs.Batch.Shelving

/-!
# Wrapping — packaging what a batch has compiled leaves its adapters alone

Classes and metadata are copied into the directory beside the one for adapters.  Whatever is copied
and however far that gets, no adapter changes and no directory goes.
-/

namespace ScriptPlugins

open FileTree BuildLayout Attempt

/-- What each attempt of a list preserves, all of them do. -/
theorem Attempt.Preserves.mapM {ε α β : Type} {P : World → Prop} {xs : List α} {f : α → Attempt ε β}
    (hf : ∀ x ∈ xs, Preserves P (f x)) : Preserves P (xs.mapM f) := by
  induction xs with
  | nil => exact .pure []
  | cons x xs ih =>
    rw [List.mapM_cons]
    exact (hf x List.mem_cons_self).bind fun _ =>
      (ih fun y hy => hf y (List.mem_cons_of_mem x hy)).bind fun _ => .pure _

namespace BuildLayout

variable {b : BuildLayout} {l : Location} {t t' : FileTree} {q target source : Path}
  {ss : List String} {entries : List (String × Entry)} {w : World}

/-! ## 1. Paths to what is packaged -/

/-- A path that goes down from the root of a build to packaged classes. -/
def Packaging (b : BuildLayout) (q : Path) : Prop :=
  ∃ r, q.steps = b.root.steps ++ (packagedNames ++ r).map .name

theorem not_prefix_packaged (r : List String) : ¬adaptersNames <+: packagedNames ++ r := fun h =>
  (by decide : ¬adaptersNames <+: packagedNames)
    (List.prefix_of_prefix_length_le h (List.prefix_append packagedNames r) (by decide))

namespace Packaging

theorem makeDirectories (h : b.Packaging q) (htarget : target.steps <+: q.steps) :
    b.Spares (.makeDirectories target) := by
  obtain ⟨r, hr⟩ := h
  exact .makeDirectories (hr ▸ htarget) fun hp => absurd hp (not_prefix_packaged r)

theorem writeFile (h : b.Packaging q) (bytes : ByteArray) : b.Spares (.writeFile q bytes) := by
  obtain ⟨r, hr⟩ := h
  exact .writeFile hr (by simp [packagedNames]) (not_prefix_packaged r)

end Packaging

theorem packaging_down {r : List String} (hn : ∀ s ∈ packagedNames ++ r, IsName s) :
    b.Packaging (b.root.down (packagedNames ++ r)) :=
  ⟨r, Path.steps_down (fun s hs => (hn s hs).part) b.root⟩

/-- What is copied from a proper tree has names that lead down. -/
theorem packaging_of_walkFrom {r : List String} (h : t.Proper)
    (hn : ∀ s ∈ packagedNames ++ r, IsName s)
    (hwalk : t.walkFrom source = .ok entries) {x : String × Entry} (hx : x ∈ entries) :
    b.Packaging ((b.root.down (packagedNames ++ r)).join x.1) := by
  obtain ⟨e, -, hwalk⟩ := bind_eq_ok hwalk
  obtain ⟨m, -, hwalk⟩ := bind_eq_ok hwalk
  obtain rfl := Except.ok.inj hwalk
  rcases List.mem_cons.mp hx with rfl | hx
  · obtain ⟨r', hr'⟩ := packaging_down (b := b) hn
    exact ⟨r', (Path.steps_join_empty _).trans hr'⟩
  · obtain ⟨⟨names, e'⟩, hmem, rfl⟩ := List.mem_map.mp hx
    have hbelow : (names, e') ∈ t.below m := by
      split at hmem
      · exact hmem
      · cases hmem
    obtain ⟨hnames, hentry⟩ := mem_below.mp hbelow
    have hdown : ∀ s ∈ names, IsName s := fun s hs =>
      h.names (m ++ names) (by simp [hentry]) s (List.mem_append_right m hs)
    rw [Path.join_joinWith _ hnames fun s hs => (hdown s hs).step, ← Path.down_append,
      List.append_assoc]
    refine packaging_down fun s hs => ?_
    rw [← List.append_assoc] at hs
    exact (List.mem_append.mp hs).elim (hn s) (hdown s)

/-! ## 2. Packaging -/

/-- A tree with the adapters of another one, and with all of its directories. -/
structure Keeping (b : BuildLayout) (l : Location) (t t' : FileTree) : Prop where
  sited : b.Sited l t'
  adapters : ∀ m ∈ inside (b.adaptersAt l), t'.entry? m = t.entry? m
  directories : ∀ m, t.entry? m = some .directory → t'.entry? m = some .directory

section Preserving

variable (hd : b.Direct l)

include hd

theorem preserves_change {c : FileChange} (hc : b.Spares c) (hno : ∀ q, c ≠ .removeDirectory q)
    (refused : FileError → BuildError) :
    Preserves (fun w => b.Keeping l t w.files) (Attempt.change refused c) := by
  intro w h
  obtain ⟨hsited, hadapters⟩ := h.sited.apply hd hc
  have happly : w.files.apply c = ((w.files.apply c).1, (w.files.apply c).2) := rfl
  rw [run_change happly]
  exact ⟨hsited, fun m hm => (hadapters m hm).trans (h.adapters m hm),
    fun m hm => hc.keeps_directories hno (h.directories m hm)⟩

theorem preserves_copyEntry (hq : b.Packaging q) (e : Entry) :
    Preserves (fun w => b.Keeping l t w.files) (copyEntry q e) := by
  cases e with
  | directory =>
    exact (preserves_change hd (hq.makeDirectories List.prefix_rfl) (fun _ h => by cases h) _).bind
      fun _ => .pure 0
  | file bytes =>
    rw [copyEntry]
    have hwrite :=
      (preserves_change hd (t := t) (hq.writeFile bytes) (fun _ h => by cases h)
        (BuildError.files q)).bind
      fun _ => Preserves.pure (ε := BuildError) 1
    split
    next parent hparent =>
      exact (preserves_change hd (hq.makeDirectories (Path.steps_parent? hparent))
        (fun _ h => by cases h) _).bind fun _ => hwrite
    · exact (Preserves.pure ()).bind fun _ => hwrite

/-- Copying a directory to packaged classes changes no adapter, whatever is in it. -/
theorem preserves_copyTree {r : List String} (hn : ∀ s ∈ packagedNames ++ r, IsName s)
    (source : Path) :
    Preserves (fun w => b.Keeping l t w.files)
      (copyTree source (b.root.down (packagedNames ++ r))) := by
  intro w h
  rw [copyTree, run_bind_ok (run_files w)]
  cases hwalk : w.files.walkFrom source with
  | error e => exact h
  | ok entries =>
    have hcopy : Preserves (fun w => b.Keeping l t w.files) (entries.mapM fun x =>
        copyEntry ((b.root.down (packagedNames ++ r)).join x.1) x.2) :=
      .mapM fun x hx =>
        preserves_copyEntry hd (packaging_of_walkFrom h.sited.proper hn hwalk hx) x.2
    exact hcopy.bind (fun _ => .pure _) w h

theorem preserves_package (dirs : List Path) (metadataRoot : Path) :
    Preserves (fun w => b.Keeping l t w.files) (package dirs metadataRoot b.outputClasses) := by
  have hkeeping := ofFiles (b.Keeping l t)
  have hclasses (dir : Path) :
      Preserves (fun w => b.Keeping l t w.files) (copyTree dir b.outputClasses) :=
    preserves_copyTree hd (r := []) (by decide) dir
  have hmetadata : Preserves (fun w => b.Keeping l t w.files)
      (copyTree metadataRoot (b.outputClasses.join packagedMetadata)) :=
    preserves_copyTree hd (r := [packagedMetadata]) (by decide) metadataRoot
  refine (Preserves.mapM fun dir _ => hclasses dir).bind fun _ =>
    (LeavesFiles.files.preserves hkeeping).bind fun u => ?_
  have hreport (copied : Nat) : Preserves (fun w => b.Keeping l t w.files) (do
      Attempt.report (.packaged b.outputClasses.text copied)
      return copied : Attempt BuildError Nat) :=
    ((LeavesFiles.report _).bind fun _ => .pure copied).preserves hkeeping
  split
  · exact hmetadata.bind fun _ => hreport _
  · exact (Preserves.pure 0).bind fun _ => hreport _

end Preserving

/-- The way to the root of a build stands if something in the build was copied. -/
theorem walk_of_copyTree {dest : Path} {n : Nat} {w' : World}
    (hsource : b.root.steps <+: source.steps)
    (h : Job.run (copyTree source dest).run w = (.ok n, w')) :
    w.files.walk w.files.here b.root.steps = .ok (leads w.files.here b.root.steps) := by
  obtain ⟨t, w₁, hfiles, h⟩ := of_run_bind_ok h
  obtain ⟨entries, w₂, hwalk, -⟩ := of_run_bind_ok h
  cases hfiles
  have hentries := mapError_eq_ok (Prod.mk.inj hwalk).1
  obtain ⟨e, -, hentries⟩ := bind_eq_ok hentries
  obtain ⟨m, hm, -⟩ := bind_eq_ok hentries
  exact walk_of_prefix (place_eq_ok.mp (locate_eq_ok.mp (mapError_eq_ok hm)).1).2 hsource

/-- It stands if anything was packaged: the first of the registered directories was copied. -/
theorem walk_of_package {dirs : List Path} {metadataRoot dest : Path} {n : Nat} {w' : World}
    (hdirs : ∀ dir ∈ dirs, b.root.steps <+: dir.steps) (hne : dirs ≠ [])
    (h : Job.run (package dirs metadataRoot dest).run w = (.ok n, w')) :
    w.files.walk w.files.here b.root.steps = .ok (leads w.files.here b.root.steps) := by
  obtain ⟨dir, dirs, rfl⟩ := List.exists_cons_of_ne_nil hne
  obtain ⟨_, _, hclasses, -⟩ := of_run_bind_ok h
  rw [List.mapM_cons] at hclasses
  obtain ⟨_, _, hcopy, -⟩ := of_run_bind_ok hclasses
  exact walk_of_copyTree (hdirs dir List.mem_cons_self) hcopy

end BuildLayout

/-! ## 3. Closing a batch -/

variable {p : Precompiler} {l : Location} {scope : Nat} {reports : List ScriptReport}
  {report : BatchReport} {w v : World}

/-- Neither the files nor the register change when a scope is locked. -/
theorem of_run_lockScope
    (h : Job.run (Attempt.adapt BuildError.scope (Attempt.lockScope scope)).run w = (.ok (), v)) :
    v.files = w.files ∧ v.registered = w.registered := by
  cases hs : w.scopes.scope? scope with
  | none =>
    rw [run_adapt (run_lockScope_of_gone hs)] at h
    cases h
  | some s =>
    rw [run_adapt (run_lockScope_of_live hs)] at h
    obtain rfl := (Prod.mk.inj h).2
    exact ⟨rfl, rfl⟩

/-- **A batch that closes keeps its adapters**, and if something was compiled the path leads to
them. -/
theorem of_run_closing (hd : p.layout.Direct l) (hw : p.layout.Prepared l w)
    (h : Job.run (p.closing scope reports).run w = (.ok report, v)) :
    report.scripts = reports ∧ p.layout.Keeping l w.files v.files ∧
      (w.registered ≠ [] → v.files.walk l p.layout.root.steps =
        .ok (leads l p.layout.root.steps)) := by
  obtain ⟨_, w₁, hlock, h⟩ := of_run_bind_ok h
  obtain ⟨_, w₂, hobserve, h⟩ := of_run_bind_ok h
  obtain ⟨packaged, w₃, hpackage, h⟩ := of_run_bind_ok h
  obtain ⟨_, w₄, hend, h⟩ := of_run_bind_ok h
  cases hobserve
  obtain ⟨log, hlog⟩ := Precompiler.run_reportEnd ⟨reports, scope, packaged⟩ w₃
  obtain rfl := (Prod.mk.inj (hend.symm.trans hlog)).2
  obtain ⟨hreport, rfl⟩ := Prod.mk.inj h
  obtain ⟨hfiles, hregistered⟩ := of_run_lockScope hlock
  have hstart : p.layout.Keeping l w.files w₁.files := by
    rw [hfiles]
    exact ⟨hw.sited, fun _ _ => rfl, fun _ hm => hm⟩
  have hkeeping : p.layout.Keeping l w.files w₃.files := by
    have hpreserved :=
      preserves_package hd (sortedDirectories w₁.registered) p.layout.cache.metadataRoot w₁ hstart
    rwa [hpackage] at hpreserved
  refine ⟨congrArg BatchReport.scripts (Except.ok.inj hreport).symm, hkeeping, fun hne => ?_⟩
  have hperm : (sortedDirectories w₁.registered).Perm w.registered :=
    hregistered ▸ List.mergeSort_perm w₁.registered Path.precedes
  have hwalk := walk_of_package (fun dir hdir => hw.registered dir (hperm.subset hdir))
    (fun hnil => hne (List.nil_perm.mp (hnil ▸ hperm))) hpackage
  rw [hfiles, hw.sited.here] at hwalk
  exact walk_mono hwalk fun m _ hm => hkeeping.directories m hm

end ScriptPlugins
