import ScriptPlugins.Proofs.Cache.Compiling

/-!
# Loading through a scope — what a phase exports, and what it counts

The classes that a scope exports belong to their names.  A unit whose entry is fresh is loaded
through an open scope that does not export its name yet.
-/

namespace ScriptPlugins

/-! ## 1. Open scopes -/

/-- What a scope that is not locked exports under some names. -/
structure Owning.Exports (o : Owning) (K : Set String) (exports : String → Option CompiledClass)
    (t : ScopeTree) : Prop where
  sound : t.Sound
  scope : ∃ s, t.scope? o.scope = some s ∧ s.locked = false ∧ ∀ n ∈ K, s.classes[n]? = exports n

namespace Owning

variable {o : Owning} {K : Set String} {exports : String → Option CompiledClass} {w : World}

/-- What an open scope exports under some names stays while the others export theirs. -/
def exporting (o : Owning) (K : Set String) (exports : String → Option CompiledClass) :
    o.Frame K where
  holds := o.Exports K exports
  stays := by
    rintro t t' ⟨hsound, s, hs, hlocked, hclasses⟩ hkept
    obtain ⟨s', hs', hk⟩ := hkept.exists_scope hs
    exact ⟨hkept.sound hsound, s', hs', hk.locked.trans hlocked, fun n hn =>
      (hk.classes n (not_not.mpr hn)).trans (hclasses n hn)⟩

/-- The scope is used, and then exports what it then has. -/
theorem Exports.set {t : ScopeTree} (h : t.Sound) {s s' : Scope} (hs : t.scope? o.scope = some s)
    (hp : s'.links = s.links) (hl : s'.locked = false)
    (hclasses : ∀ n ∈ K, s'.classes[n]? = exports n) :
    o.Exports K exports (t.set o.scope s') :=
  ⟨h.set hs hp, s', by rw [ScopeTree.scope?_set (ScopeTree.lt_of_scope? hs), if_pos rfl], hl,
    hclasses⟩

theorem tally_register (o : Owning) (w : World) (dir : Path) :
    o.tally { w with registered := w.registered ++ [dir] } = o.tally w + ({dir}, 0, 0) := by
  refine Prod.ext ?_ (Prod.ext (add_zero _).symm (add_zero _).symm)
  show ((w.registered ++ [dir] : List Path) : Multiset Path) = w.registered + {dir}
  rw [← Multiset.coe_add, Multiset.coe_singleton]

theorem tally_set {s s' : Scope} (hs : w.scopes.scope? o.scope = some s) :
    o.tally { w with scopes := w.scopes.set o.scope s' } =
      ((w.registered, (s'.directories : List Path), s'.reuses) : Tally) := by
  simp only [tally, ScopeTree.scope?_set (ScopeTree.lt_of_scope? hs), if_true, Option.elim_some]

theorem tally_of_scope? {s : Scope} (hs : w.scopes.scope? o.scope = some s) :
    o.tally w = ((w.registered, (s.directories : List Path), s.reuses) : Tally) := by
  simp only [tally, hs, Option.elim_some]

end Owning

namespace Cache

open Owning

variable {c : Cache} {o : Owning} {C M : Location} {K : Set String} {w : World} {e : Tally}
  {name : String} {s : Script} {phase : Phase} {made : String → Option Made}
  {exports : String → Option CompiledClass}

/-! ## 2. Loading -/

/-- What entries were made from, and what an open scope exports. -/
abbrev Stands (c : Cache) (o : Owning) (C M : Location) (K : Set String)
    (made : String → Option Made) (exports : String → Option CompiledClass) (w : World) : Prop :=
  c.Records o C M (o.exporting K exports) made w

theorem answers_register (hseat : Seat o C M K) (h : c.Stands o C M K made exports w) (dir : Path)
    {ε : Type} :
    o.Answers K (Attempt.perform (.register dir) : Attempt ε Unit) e w fun _ e' w' =>
      e' = e + ({dir}, 0, 0) ∧ c.Stands o C M K made exports w' :=
  Answers.perform (stable_records hseat) h (fun _ => stable_records hseat) fun w h =>
    ⟨⟨.refl _ _, .refl _ _ _, List.prefix_append .., id⟩, tally_register o w dir,
      ⟨h.knows.shelf, h.knows.scopes, h.knows.now⟩, h.sound⟩

/-- Exporting the class of an entry. -/
theorem answers_exportAll (hseat : Seat o C M K) (h : c.Stands o C M K made exports w) {m : Made}
    (hn : m.name ∈ K) (hx : exports m.name = none) (dir : Path) :
    o.Answers K (Attempt.alter (fun e => e) (.exportAll o.scope dir [m.compiled])) e w
      fun _ e' w' => e' = e + (0, {dir}, 0) ∧
        c.Stands o C M K made (Function.update exports m.name (some m.compiled)) w' := by
  refine Answers.alter (stable_records hseat) h (stable_records hseat) fun w h => ?_
  obtain ⟨hsound, s, hs, hlocked, hclasses⟩ := h.knows.scopes
  have hkept : s.Kept (K ∩ o.classNames) { s with
      classes := s.classes.insert m.name m.compiled
      directories := s.directories ++ [dir] } := by
    refine ⟨rfl, rfl, rfl, rfl, fun n hn' => ?_⟩
    rw [getElem?_insert_name, if_neg]
    exact fun he => hn' (he ▸ ⟨hn, hseat.names hn⟩)
  have hnew : ∀ c ∈ [m.compiled], s.classes[c.name]? = none := fun c hc =>
    List.mem_singleton.mp hc ▸ (hclasses m.name hn).trans hx
  have hexport := ScopeTree.exportAll_of_open hs hlocked dir hnew
  refine ⟨_, hexport, .set hs hkept, ?_,
    ⟨h.knows.shelf, .set hsound hs rfl hlocked fun n hn' => ?_, h.knows.now⟩, h.sound⟩
  · rw [tally_set hs, tally_of_scope? hs]
    refine Prod.ext (add_zero _).symm (Prod.ext ?_ (add_zero _).symm)
    show ((s.directories ++ [dir] : List Path) : Multiset Path) = s.directories + {dir}
    rw [← Multiset.coe_add, Multiset.coe_singleton]
  · show (s.classes.insert m.name m.compiled)[n]? = _
    rw [getElem?_insert_name]
    by_cases he : n = m.name
    · rw [he, Function.update_self, if_pos rfl]
    · rw [Function.update_of_ne he, if_neg he, hclasses n hn']

/-- Exporting the directory of an entry. -/
theorem answers_exportDirectory (hseat : Seat o C M K) (h : c.Stands o C M K made exports w)
    {m : Made} (hn : m.name ∈ K) (ht : c.Takes m.name) (hm : made m.name = some m)
    (hx : exports m.name = none) :
    o.Answers K (exportDirectory o.scope (c.classesDir m.name)) e w fun _ e' w' =>
      e' = e + (0, {c.classesDir m.name}, 0) ∧
        c.Stands o C M K made (Function.update exports m.name (some m.compiled)) w' := by
  have hstable : o.Stable K (c.Stands o C M K made exports) := stable_records hseat
  rw [exportDirectory]
  refine (Answers.scopes hstable h).bind fun scopes e₁ w hend => ?_
  obtain ⟨⟨seen, hseen, rfl⟩, rfl, h⟩ := hend
  obtain ⟨-, s, hs, hlocked, -⟩ := hseen.knows.scopes
  have hunlocked : seen.scopes.unlocked o.scope ScopeTree.exportingDirectory = .ok s :=
    ScopeTree.unlocked_of_open hs hlocked _
  refine (Answers.discard (P := fun e' w' => e' = e₁ ∧ c.Stands o C M K made exports w')
    (Answers.of hunlocked fun w' hw => ⟨rfl, hstable _ _ h hw⟩)).bind fun _ e₂ w hend => ?_
  obtain ⟨rfl, h⟩ := hend
  refine (Answers.files hstable h).bind fun t e₂ w hend => ?_
  obtain ⟨⟨seen', hseen', rfl⟩, rfl, h⟩ := hend
  obtain ⟨-, hsound⟩ := hseen'.sound _ hn m hm
  have hread := hseen'.knows.shelf.readClasses hn ht (by rw [Function.comp_apply, hm]; rfl) hsound
  refine (Answers.of (P := fun cs e' w' => cs = [m.compiled] ∧ e' = e₂ ∧
    c.Stands o C M K made exports w') (by rw [hread]; rfl)
    fun w' hw => ⟨rfl, rfl, hstable _ _ h hw⟩).bind fun cs e₃ w hend => ?_
  obtain ⟨rfl, rfl, h⟩ := hend
  refine (answers_exportAll hseat h hn hx _).bind fun _ e₄ w hend => ?_
  obtain ⟨rfl, h⟩ := hend
  refine (Answers.report (stable_records hseat) h (fun _ _ h => h.log _) _).bind
    fun _ e₅ w hend => ?_
  obtain ⟨rfl, h⟩ := hend
  exact Answers.pure fun w' hw => ⟨rfl, stable_records hseat _ _ h hw⟩

end Cache

/-- The unit that is loaded from an entry. -/
def Made.unit (m : Made) (scope : Nat) : LoadedUnit :=
  ⟨m.compiled, m.script.contentHash, !m.steps.isEmpty, false, m.metadata.notes, scope⟩

namespace Cache

open Owning

variable {c : Cache} {o : Owning} {C M : Location} {K : Set String} {w : World} {e : Tally}
  {s : Script} {phase : Phase} {made : String → Option Made}
  {exports : String → Option CompiledClass}

/-- **A unit is loaded from an entry that serves it.** -/
theorem answers_load (hseat : Seat o C M K) (h : c.Stands o C M K made exports w)
    (hn : s.classNameOf phase ∈ K) (ht : c.Takes (s.classNameOf phase)) {m : Made}
    (hm : made (s.classNameOf phase) = some m) (hserves : m.serves s phase = true)
    (hx : exports (s.classNameOf phase) = none) :
    o.Answers K ((c.key s phase).load o.scope) e w fun unit e' w' => unit = m.unit o.scope ∧
      e' = e + (0, {c.classesDir (s.classNameOf phase)}, 0) ∧
      c.Stands o C M K made
        (Function.update exports (s.classNameOf phase) (some m.compiled)) w' := by
  have hstable : o.Stable K (c.Stands o C M K made exports) := stable_records hseat
  obtain ⟨hname, hsound⟩ := h.sound _ hn m hm
  rw [UnitKey.load]
  refine (Answers.files hstable h).bind fun t e₁ w ⟨⟨seen, hseen, ht'⟩, he₁, h⟩ => ?_
  subst he₁ ht'
  -- Others may have written since then, but not what is owned here: the metadata is still that of
  -- `m`.
  have hread := hseen.knows.shelf.readMetadata hn ht (by rw [Function.comp_apply, hm]; rfl) hsound
  refine (Answers.of (P := fun r e' w' => r = m.metadata ∧ e' = e₁ ∧
    c.Stands o C M K made exports w') hread fun w' hw => ⟨rfl, rfl, hstable _ _ h hw⟩).bind
    fun r e₂ w ⟨hr, he₂, h⟩ => ?_
  subst hr he₂
  refine (Answers.of (P := fun _ e' w' => e' = e₂ ∧ c.Stands o C M K made exports w')
    (Made.check_metadata hname hserves) fun w' hw => ⟨rfl, hstable _ _ h hw⟩).bind
    fun _ e₃ w ⟨he₃, h⟩ => ?_
  subst he₃
  have hexport := answers_exportDirectory (e := e₃) (m := m) hseat h (hname ▸ hn) (hname ▸ ht)
    (hname ▸ hm) (hname ▸ hx)
  rw [hname] at hexport
  refine hexport.adapt.discard.bind fun _ e₄ w ⟨he₄, h⟩ => ?_
  refine (Answers.scopes (stable_records hseat) h).bind
    fun t e₅ w ⟨⟨seen', hseen', ht'⟩, he₅, h⟩ => ?_
  subst he₅ ht'
  obtain ⟨hsound', s', hs', -, hclasses⟩ := hseen'.knows.scopes
  have hresolve : (seen'.scopes.resolve o.scope (s.classNameOf phase)).mapError LoadError.scope =
      .ok m.compiled := by
    rw [hsound'.resolve_exported hs' ((hclasses _ hn).trans (Function.update_self ..))]
    rfl
  refine (Answers.of (P := fun r e' w' => r = m.compiled ∧ e' = e₅ ∧
    c.Stands o C M K made (Function.update exports (s.classNameOf phase) (some m.compiled)) w')
    hresolve fun w' hw => ⟨rfl, rfl, stable_records hseat _ _ h hw⟩).bind
    fun r e₆ w ⟨hr, he₆, h⟩ => ?_
  subst hr he₆
  exact Answers.pure fun w' hw => ⟨rfl, he₄, stable_records hseat _ _ h hw⟩

/-- A use of the scope is counted. -/
theorem answers_reuse (hseat : Seat o C M K) (h : c.Stands o C M K made exports w) :
    o.Answers K (Attempt.reuseScope o.scope) e w fun _ e' w' => e' = e + (0, 0, 1) ∧
      c.Stands o C M K made exports w' := by
  have hstable : o.Stable K (c.Stands o C M K made exports) := stable_records hseat
  have halter : o.Answers K (Attempt.alter id (.reuse o.scope)) e w fun _ e' w' =>
      e' = e + (0, 0, 1) ∧ c.Stands o C M K made exports w' := by
    refine Answers.alter hstable h hstable fun w h => ?_
    obtain ⟨hsound, s, hs, hlocked, hclasses⟩ := h.knows.scopes
    have hreuse : w.scopes.apply (.reuse o.scope) =
        .ok (w.scopes.set o.scope { s with reuses := s.reuses + 1 }) := by
      rw [ScopeTree.apply, ScopeTree.reuse, ScopeTree.modify, ScopeTree.get_of_scope? hs]
      rfl
    refine ⟨_, hreuse, .set hs ⟨rfl, rfl, rfl, rfl, fun _ _ => rfl⟩, ?_,
      ⟨h.knows.shelf, .set hsound hs rfl hlocked hclasses, h.knows.now⟩, h.sound⟩
    rw [tally_set hs, tally_of_scope? hs]
    exact Prod.ext (add_zero _).symm (Prod.ext (add_zero _).symm rfl)
  rw [Attempt.reuseScope]
  refine halter.bind fun _ e₁ w hend => ?_
  obtain ⟨rfl, h⟩ := hend
  refine (Answers.scopes hstable h).bind fun t e₂ w hend => ?_
  obtain ⟨⟨seen, hseen, rfl⟩, rfl, h⟩ := hend
  obtain ⟨-, s', hs', -, -⟩ := hseen.knows.scopes
  refine (Answers.of (P := fun _ e' w' => e' = e + (0, 0, 1) ∧ c.Stands o C M K made exports w')
    (ScopeTree.get_of_scope? hs') fun w' hw => ⟨rfl, hstable _ _ h hw⟩).bind
    fun s'' e₃ w hend => ?_
  obtain ⟨rfl, h⟩ := hend
  exact Answers.report hstable h (fun _ _ h => h.log _) _

end Cache

end ScriptPlugins
