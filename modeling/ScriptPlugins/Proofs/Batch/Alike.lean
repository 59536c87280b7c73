import ScriptPlugins.Proofs.Batch.Closing

/-!
# Alike — worlds that differ in nothing but times

Whatever the schedule, the scripts of a batch leave the same entries, but for the times at which
they were made, the same adapters and the same exports.  So the same is packaged.
-/

namespace ScriptPlugins

open FileTree Owning BuildLayout

/-! ## 1. Worlds that are alike -/

/-- Metadata made at another time. -/
def Metadata.madeAt (m : Metadata) (now : Instant) : Metadata := { m with createdAt := now }

/-- What stands somewhere is the same, or it is metadata made at another time. -/
def Entry.Alike (e e' : Option Entry) : Prop :=
  e = e' ∨ ∃ (m : Metadata) (now now' : Instant),
    e = some (.file (m.madeAt now).print.toUTF8) ∧ e' = some (.file (m.madeAt now').print.toUTF8)

/-- Trees that hold the same, but for the times in metadata. -/
structure FileTree.Alike (t t' : FileTree) : Prop where
  here : t.here = t'.here
  entries : ∀ l, Entry.Alike (t.entry? l) (t'.entry? l)

/-- Scopes that are the same, but for the order in which they came to their directories. -/
structure Scope.Alike (s s' : Scope) : Prop where
  name : s.name = s'.name
  parent : s.parent = s'.parent
  children : s.children = s'.children
  classes : s.classes = s'.classes
  directories : s.directories.Perm s'.directories
  locked : s.locked = s'.locked
  reuses : s.reuses = s'.reuses

/-- Trees of scopes that are alike. -/
structure ScopeTree.Alike (t t' : ScopeTree) : Prop where
  size : t.slots.length = t'.slots.length
  scopes : ∀ id, Option.Rel Scope.Alike (t.scope? id) (t'.scope? id)

/-- Worlds with the same files, scopes and registered directories, but for times and the order in
which directories were registered. -/
structure World.Alike (w w' : World) : Prop where
  files : w.files.Alike w'.files
  scopes : w.scopes.Alike w'.scopes
  registered : w.registered.Perm w'.registered

theorem Entry.Alike.count {e e' : Option Entry} (h : Entry.Alike e e') :
    e.map Entry.count = e'.map Entry.count := by
  rcases h with rfl | ⟨m, now, now', rfl, rfl⟩
  · rfl
  · rw [Option.map_some, Option.map_some, Entry.count, Entry.count]

theorem Scope.Alike.refl (s : Scope) : s.Alike s := ⟨rfl, rfl, rfl, rfl, .refl _, rfl, rfl⟩

theorem ScopeTree.rel_refl (s : Option Scope) : Option.Rel Scope.Alike s s := by
  cases s with
  | none => exact .none
  | some s => exact .some (.refl s)

/-! ## 2. Scripts at other times -/

theorem Made.metadata_origin {m m' : Made} (h : m.origin = m'.origin) :
    m.metadata = m'.metadata.madeAt m.createdAt := by
  rw [m.eq_of_origin h]
  rfl

/-- The metadata of entries made from the same tells the same. -/
theorem Boxes.metadata_alike {entry entry' : Option Made}
    (h : entry.map Made.origin = entry'.map Made.origin) (f : String) (r : Location) :
    Entry.Alike ((Boxes.ofMade entry).metadata.entry? f r)
      ((Boxes.ofMade entry').metadata.entry? f r) := by
  cases entry <;> cases entry'
  · exact .inl rfl
  · cases h
  · cases h
  next m m' =>
    have horigin : m.origin = m'.origin := Option.some.inj h
    show Entry.Alike (Box.entry? f (some (some m.metadata.print.toUTF8)) r)
      (Box.entry? f (some (some m'.metadata.print.toUTF8)) r)
    by_cases hr : r = [f]
    · right
      refine ⟨m'.metadata, m.createdAt, m'.createdAt, ?_, ?_⟩
      · rw [hr, Box.entry?, if_pos rfl, Made.metadata_origin horigin]
        rfl
      · rw [hr, Box.entry?, if_pos rfl]
        rfl
    · exact .inl (Box.entry?_of_ne hr _ _)

theorem Boxes.classes_alike {entry entry' : Option Made}
    (h : entry.map Made.origin = entry'.map Made.origin) :
    (Boxes.ofMade entry).classes = (Boxes.ofMade entry').classes := by
  cases entry <;> cases entry'
  · rfl
  · cases h
  · cases h
  next m m' =>
    have hcompiled := Made.compiled_origin (Option.some.inj h)
    show some (some m.compiled.print.toUTF8) = some (some m'.compiled.print.toUTF8)
    rw [hcompiled]

namespace Precompiler

variable {p : Precompiler} {L : Location} {used : Set Script} {root scope : Nat}
  {acc : List (Nat × Script)} {made : String → Option Made} {times times' : Nat → Phase → Instant}
  {w₀ w w' v v' : World}

/-- A script of a batch comes to the same at all times. -/
theorem scriptOn_alike (p : Precompiler) (s : Script) (scope : Nat) (now now' : Phase → Instant)
    (g : Stage) :
    (p.scriptOn s scope now g).1 = (p.scriptOn s scope now' g).1 ∧
      (p.scriptOn s scope now g).2.Alike (p.scriptOn s scope now' g).2 := by
  obtain ⟨hresult, hstage⟩ :=
    Cache.scriptOn_alike p.layout.cache p.compiler s scope (.refl g) now now'
  revert hresult hstage
  rcases h : p.layout.cache.scriptOn p.compiler s scope now g with ⟨err | c, g₁⟩ <;>
    rcases h' : p.layout.cache.scriptOn p.compiler s scope now' g with ⟨err' | c', g₂⟩ <;>
    intro hresult hstage
  · have herr : (Except.error err : Except BuildError CompiledScript) = .error err' := hresult
    rw [scriptOn_error h, scriptOn_error h', Except.error.inj herr]
    exact ⟨rfl, hstage⟩
  · cases hresult
  · cases hresult
  · have hc : (Except.ok c : Except BuildError CompiledScript) = .ok c' := hresult
    rw [scriptOn_ok h, scriptOn_ok h', Except.ok.inj hc]
    exact ⟨rfl, hstage⟩

theorem stageAt_alike (p : Precompiler) (scope : Nat) (acc : List (Nat × Script))
    (made : String → Option Made) (times times' : Nat → Phase → Instant) (n : String) :
    (p.stageAt scope acc made times n).Alike (p.stageAt scope acc made times' n) := by
  rw [stageAt, stageAt]
  cases acc.find? (·.2.ownsClass n) with
  | none => exact .refl _
  | some a => exact (p.scriptOn_alike a.2 scope (times a.1) (times' a.1) (stageOf made)).2

/-- What a batch exports does not depend on when. -/
theorem exportsAfter_eq (p : Precompiler) (scope : Nat) (acc : List (Nat × Script))
    (made : String → Option Made) (times times' : Nat → Phase → Instant) :
    p.exportsAfter scope acc made times = p.exportsAfter scope acc made times' :=
  funext fun n => congrFun (p.stageAt_alike scope acc made times times' n).exports n

theorem Ended.tally_eq (h : p.Ended L scope acc made times w₀ w)
    (h' : p.Ended L scope acc made times' w₀ w') :
    (batchOwning L scope).tally w = (batchOwning L scope).tally w' := by
  rw [h.tally, h'.tally]
  exact congrArg (fun l : List Tally => _ + l.sum) (List.map_congr_left fun a _ =>
    (p.scriptOn_alike a.2 scope (times a.1) (times' a.1) (stageOf made)).2.tally)

/-! ## 3. Batches that are alike -/

/-- Entries that scripts leave are the same, but for the times in them. -/
theorem Ended.entry?_alike (h : p.Ended L scope acc made times w₀ w)
    (h' : p.Ended L scope acc made times' w₀ w') (hapart : AllApart acc)
    (h₀ : p.Begins L used root scope made w₀) (l : Location) :
    Entry.Alike (w.files.entry? l) (w'.files.entry? l) := by
  have hmade (n : String) := (p.stageAt_alike scope acc made times times' n).made n
  have hshelf := h.shelf hapart h₀
  have hshelf' := h'.shelf hapart h₀
  by_cases hl : l ∈ batchOwned L scope
  case neg => exact .inl ((h.entry? hl).trans (h'.entry? hl).symm)
  -- The three stores in turn: no class and no adapter tells a time, so only metadata can differ.
  rcases reaches_owned l hl with hin | hin | hin <;> obtain ⟨n, r, rfl⟩ := exists_of_mem_inside hin
  · have hc := hshelf.classes n trivial r
    have hc' := hshelf'.classes n trivial r
    rw [List.append_assoc] at hc hc'
    refine .inl (hc.trans (Eq.trans ?_ hc'.symm))
    exact congrArg (fun b : Box => b.entry? (classFileName n) r) (Boxes.classes_alike (hmade n))
  · have hm := hshelf.metadata n trivial r
    have hm' := hshelf'.metadata n trivial r
    rw [List.append_assoc, List.singleton_append] at hm hm'
    rw [hm, hm']
    exact Boxes.metadata_alike (hmade n) metadataFileName r
  · by_cases hfile : ∃ a ∈ acc, n = a.2.adapterFile
    · obtain ⟨a, ha, rfl⟩ := hfile
      have hfile := (h.leaves a ha).adapter.file r
      have hfile' := (h'.leaves a ha).adapter.file r
      rw [(p.scriptOn_alike a.2 scope (times a.1) (times' a.1) (stageOf made)).1] at hfile
      rw [List.append_assoc] at hfile hfile'
      exact .inl (hfile.trans hfile'.symm)
    · have hnot : L ++ adaptersNames ++ n :: r ∉
          (batchOwning L scope).region {n | ∃ a ∈ acc, n ∈ a.2.owns} := by
        rintro ⟨m, ⟨a, ha, hm⟩, howner⟩
        rw [owner_adapters] at howner
        obtain rfl := Option.some.inj howner
        rcases hm with ⟨phase, hm⟩ | hm
        · exact a.2.classNameOf_ne_adapterOwner phase n hm.symm
        · exact hfile ⟨a, ha, (String.append_right_inj _).mp hm⟩
      exact .inl ((h.keeps.files.entries _ hnot).trans (h'.keeps.files.entries _ hnot).symm)

/-- What batches have packaged is the same, but for the times in its metadata. -/
theorem Closed.entry?_alike {x : String → Option CompiledClass} (hc : Closed L scope x w v)
    (hc' : Closed L scope x w' v')
    (halike : ∀ l, Entry.Alike (w.files.entry? l) (w'.files.entry? l)) (l : Location) :
    Entry.Alike (v.files.entry? l) (v'.files.entry? l) := by
  by_cases hl : l ∈ subtree (L ++ packagedNames)
  case neg =>
    rw [hc.packaged.others.entries l hl, hc'.packaged.others.entries l hl]
    exact halike l
  obtain ⟨_ | ⟨s, r⟩, rfl⟩ := hl
  · rw [List.append_nil, hc.packaged.paved.directory (by decide),
      hc'.packaged.paved.directory (by decide)]
    exact .inl rfl
  · by_cases hs : s = packagedMetadata
    · rw [hs, hc.packaged.metadata, hc'.packaged.metadata]
      exact halike _
    · left
      by_cases hclass : ∃ n, s :: r = [classFileName n]
      · obtain ⟨n, hn⟩ := hclass
        rw [hn, hc.packaged.classes, hc'.packaged.classes]
      · have hno (n : String) : s :: r ≠ [classFileName n] := fun hn => hclass ⟨n, hn⟩
        rw [hc.packaged.nothing s r hs hno, hc'.packaged.nothing s r hs hno]

/-- Scopes that scripts have left are the same when they are locked. -/
theorem Ended.scopes_alike (h : p.Ended L scope acc made times w₀ w)
    (h' : p.Ended L scope acc made times' w₀ w') (hapart : AllApart acc)
    (h₀ : p.Begins L used root scope made w₀) {x : String → Option CompiledClass}
    (hc : Closed L scope x w v) (hc' : Closed L scope x w' v') : v.scopes.Alike v'.scopes := by
  obtain ⟨s, hs, hname, hparent, hchildren, -, hclasses⟩ := h.exports hapart h₀
  obtain ⟨s', hs', hname', hparent', hchildren', -, hclasses'⟩ := h'.exports hapart h₀
  obtain ⟨u, hu, hv⟩ := hc.scopes
  obtain ⟨u', hu', hv'⟩ := hc'.scopes
  obtain rfl : s = u := Option.some.inj (hs.symm.trans hu)
  obtain rfl : s' = u' := Option.some.inj (hs'.symm.trans hu')
  -- Directories are equal as a multiset only: their order depends on who was first.
  have htally : ((s.directories : Multiset Path), s.reuses) = (↑s'.directories, s'.reuses) := by
    have htally := congrArg Prod.snd (h.tally_eq h')
    rw [Owning.tally, Owning.tally] at htally
    have hscope : (batchOwning L scope).scope = scope := rfl
    rwa [hscope, hs, hs'] at htally
  obtain ⟨hdirectories, hreuses⟩ := Prod.mk.inj htally
  have hsame : s.classes = s'.classes := Std.ExtTreeMap.ext_getElem? fun {n} => by
    rw [hclasses n, hclasses' n, p.exportsAfter_eq scope acc made times times']
  rw [hv, hv']
  refine ⟨?_, fun id => ?_⟩
  · rw [ScopeTree.length_set, ScopeTree.length_set]
    exact h.keeps.scopes.size.trans h'.keeps.scopes.size.symm
  · rw [ScopeTree.scope?_set (ScopeTree.lt_of_scope? hs),
      ScopeTree.scope?_set (ScopeTree.lt_of_scope? hs')]
    split
    · exact .some ⟨hname.trans hname'.symm, hparent.trans hparent'.symm,
        hchildren.trans hchildren'.symm, hsame, Multiset.coe_eq_coe.mp hdirectories, rfl, hreuses⟩
    next hid =>
      rw [h.keeps.scopes.others id hid, h'.keeps.scopes.others id hid]
      exact ScopeTree.rel_refl _

theorem Ended.registered_perm (h : p.Ended L scope acc made times w₀ w)
    (h' : p.Ended L scope acc made times' w₀ w') : w.registered.Perm w'.registered :=
  Multiset.coe_eq_coe.mp (congrArg Prod.fst (h.tally_eq h'))

/-- As many files are packaged, whatever the schedule. -/
theorem Ended.packagedFiles_eq (h : p.Ended L scope acc made times w₀ w)
    (h' : p.Ended L scope acc made times' w₀ w') (hapart : AllApart acc)
    (h₀ : p.Begins L used root scope made w₀) : packagedFiles L w = packagedFiles L w' := by
  have hcount : w.files.fileCount (L ++ metadataNames) = w'.files.fileCount (L ++ metadataNames) :=
    fileCount_congr fun r => (h.entry?_alike h' hapart h₀ _).count
  rw [packagedFiles, packagedFiles, (h.registered_perm h').length_eq, hcount]

/-- **Batches that were closed are alike**, whatever the schedule of their scripts. -/
theorem Ended.alike (h : p.Ended L scope acc made times w₀ w)
    (h' : p.Ended L scope acc made times' w₀ w')
    (hapart : AllApart acc) (h₀ : p.Begins L used root scope made w₀)
    (hc : Closed L scope (p.exportsAfter scope acc made times) w v)
    (hc' : Closed L scope (p.exportsAfter scope acc made times') w' v') : v.Alike v' := by
  rw [← p.exportsAfter_eq scope acc made times times'] at hc'
  refine ⟨⟨?_, fun l => hc.entry?_alike hc' (h.entry?_alike h' hapart h₀) l⟩,
    h.scopes_alike h' hapart h₀ hc hc', ?_⟩
  · rw [hc.packaged.others.here, hc'.packaged.others.here, h.keeps.files.here, h'.keeps.files.here]
  · rw [hc.registered, hc'.registered]
    exact h.registered_perm h'

end Precompiler

end ScriptPlugins
