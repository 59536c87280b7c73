import ScriptPlugins.Proofs.Scope.Histories

/-!
# Visibility — a scope sees what stands above it, the nearest first

A name is looked up on the way from a scope to the root and stands for the class of the first scope
there that exports it.  The set of all visible classes, which is filled from the root down, holds
the same.  What a scope exports is no matter to a scope that is not below it.
-/

namespace ScriptPlugins.ScopeTree

variable {t t' : ScopeTree} {id top i : Nat} {s s' : Scope}

/-! ## 1. Upwards -/

/-- The class that a scope itself exports under a name. -/
def exported? (t : ScopeTree) (id : Nat) (name : String) : Option CompiledClass :=
  (t.scope? id).bind fun s => s.classes[name]?

/-- What is looked up is looked up in the scopes on the way. -/
theorem Sound.exists_above (ht : t.Sound) (h : t.scope? id = some s) :
    ∃ ids ss, t.Ascends id ids ∧ t.above id = .ok ss ∧
      ∀ n, ss.findSome? (fun s => s.classes[n]?) = ids.findSome? fun i => t.exported? i n := by
  obtain ⟨above, hchain, hascends⟩ := ht.ascends h
  obtain ⟨ss, hss, hmap⟩ := mapM_get hascends.live
  refine ⟨id :: above, ss, hascends, ?_, fun n => ?_⟩
  · unfold ScopeTree.above
    rw [hchain]
    exact hss
  · let look (o : Option Scope) : Option CompiledClass := o.bind fun s => s.classes[n]?
    calc ss.findSome? (fun s => s.classes[n]?)
        = (ss.map some).findSome? look := by rw [List.findSome?_map]; rfl
      _ = ((id :: above).map t.scope?).findSome? look := by rw [hmap]
      _ = (id :: above).findSome? fun i => t.exported? i n := by rw [List.findSome?_map]; rfl

/-- A map that takes all of another one has its classes before its own. -/
theorem getElem?_foldl_classes (classes m : Std.ExtTreeMap String CompiledClass) (n : String) :
    (classes.foldl (fun m name c => m.insert name c) m)[n]? = classes[n]?.or m[n]? := by
  have hx : ∀ p ∈ classes.toList, classes[p.1]? = some p.2 := fun p hp =>
    Std.ExtTreeMap.mem_toList_iff_getElem?_eq_some.mp hp
  rw [Std.ExtTreeMap.foldl_eq_foldl_toList, getElem?_foldl_insert hx m n]
  split
  next hsome =>
    obtain ⟨p, hp, rfl⟩ := hsome
    rw [hx p hp, Option.some_or]
  next hnone =>
    cases hc : classes[n]? with
    | none => rw [Option.none_or]
    | some c =>
      have hmem := Std.ExtTreeMap.mem_toList_iff_getElem?_eq_some.mpr hc
      exact absurd ⟨(n, c), hmem, rfl⟩ hnone

/-- Filling a map from the farthest scope to the nearest leaves the class of the nearest one. -/
theorem getElem?_foldr_classes (ss : List Scope) (n : String) :
    (ss.foldr (fun s m => s.classes.foldl (fun m name c => m.insert name c) m)
      (∅ : Std.ExtTreeMap String CompiledClass))[n]? = ss.findSome? fun s => s.classes[n]? := by
  -- The nearest scope is the last to be put in, and replaces what is there.
  induction ss with
  | nil => exact Std.ExtTreeMap.getElem?_empty
  | cons s ss ih =>
    rw [List.foldr_cons, getElem?_foldl_classes, ih, List.findSome?_cons]
    cases s.classes[n]? <;> rfl

/-- Both ways of looking find the class of the first scope on the way up that exports the name. -/
theorem Sound.exists_first (ht : t.Sound) (h : t.scope? id = some s) :
    ∃ ids, t.Ascends id ids ∧
      (∀ n, t.resolve id n = match ids.findSome? fun i => t.exported? i n with
        | some c => .ok c
        | none => .error (.classNotFound s.name n)) ∧
      ∃ m, t.visible id = .ok m ∧ ∀ n, m[n]? = ids.findSome? fun i => t.exported? i n := by
  obtain ⟨ids, ss, hascends, habove, hfind⟩ := ht.exists_above h
  refine ⟨ids, hascends, fun n => ?_, ?_⟩
  · unfold resolve
    rw [habove, get_of_scope? h, ← hfind n]
    rfl
  · unfold visible
    rw [habove]
    exact ⟨_, rfl, fun n => (getElem?_foldr_classes ss n).trans (hfind n)⟩

/-- There is one way up. -/
theorem Ascends.unique {ids ids' : List Nat} (h : t.Ascends id ids) (h' : t.Ascends id ids') :
    ids = ids' := by
  induction h generalizing ids' with
  | top hs hp =>
    cases h' with
    | top _ _ => rfl
    | step hs' hp' _ =>
      cases hs.symm.trans hs'
      cases hp.symm.trans hp'
  | step hs hp _ ih =>
    cases h' with
    | top hs' hp' =>
      cases hs.symm.trans hs'
      cases hp.symm.trans hp'
    | step hs' hp' ha' =>
      cases hs.symm.trans hs'
      cases hp.symm.trans hp'
      rw [ih ha']

/-- The way up goes by parents alone. -/
theorem Ascends.set {ids : List Nat} (h : t.scope? top = some s) (hl : s'.links = s.links)
    (ha : t.Ascends id ids) : (t.set top s').Ascends id ids := by
  have hset {i : Nat} {si : Scope} (hsi : t.scope? i = some si) :
      ∃ si', (t.set top s').scope? i = some si' ∧ si'.parent = si.parent := by
    rw [scope?_set (lt_of_scope? h)]
    by_cases hi : i = top
    · subst hi
      cases h.symm.trans hsi
      exact ⟨s', if_pos rfl, congrArg Prod.fst hl⟩
    · exact ⟨si, (if_neg hi).trans hsi, rfl⟩
  induction ha with
  | top hs hp =>
    obtain ⟨si', hsi', hparent⟩ := hset hs
    exact .top hsi' (hparent.trans hp)
  | step hs hp _ ih =>
    obtain ⟨si', hsi', hparent⟩ := hset hs
    exact .step hsi' (hparent.trans hp) ih

theorem exported?_set (h : t.scope? top = some s) (i : Nat) (n : String) :
    (t.set top s').exported? i n = if i = top then s'.classes[n]? else t.exported? i n := by
  rw [exported?, scope?_set (lt_of_scope? h)]
  split <;> rfl

/-- A name that a scope exports as before stands for what it stood for. -/
theorem Sound.resolve_set_same (ht : t.Sound) (h : t.scope? top = some s) (hl : s'.links = s.links)
    (hname : s'.name = s.name) {n : String} (hn : s'.classes[n]? = s.classes[n]?) :
    (t.set top s').resolve top n = t.resolve top n := by
  have hs' : (t.set top s').scope? top = some s' := by
    rw [scope?_set (lt_of_scope? h), if_pos rfl]
  obtain ⟨ids, hids, hresolve, -⟩ := ht.exists_first h
  obtain ⟨ids', hids', hresolve', -⟩ := (ht.set h hl).exists_first hs'
  obtain rfl := (hids.set h hl).unique hids'
  have hlook : (fun i => (t.set top s').exported? i n) = fun i => t.exported? i n := by
    funext i
    rw [exported?_set h]
    split
    next hi => rw [hi, exported?, h, Option.bind_some, hn]
    next => rfl
  rw [hresolve, hresolve', hlook, hname]

/-! ## 2. Sideways -/

/-- What is on the way up from a scope has the scope below it. -/
theorem within_of_mem_chain {ids : List Nat} (h : t.chain id = .ok ids) (hi : i ∈ ids) :
    t.Within i id := by
  -- The walk goes on from the parent, which has a smaller number.
  induction id using Nat.strongRecOn generalizing ids with
  | ind id ih =>
    rw [chain] at h
    cases hs : t.scope? id with
    | none =>
      simp only [get, hs] at h
      cases h
    | some s =>
      simp only [get_of_scope? hs] at h
      split at h
      · cases h
        exact List.mem_singleton.mp hi ▸ .self
      next p hp =>
        split at h
        next hlt =>
          obtain ⟨above, habove, rfl⟩ := map_eq_ok h
          rcases List.mem_cons.mp hi with rfl | hi
          · exact .self
          · exact .under (ih p hlt habove hi) ((parent?_eq hs).trans hp)
        next =>
          cases h
          exact List.mem_singleton.mp hi ▸ .self

theorem get_set (h : t.scope? top = some s) (hi : i ≠ top) : (t.set top s').get i = t.get i := by
  rw [get, get, scope?_set (lt_of_scope? h), if_neg hi]

theorem chain_set (h : t.scope? top = some s) (hl : s'.links = s.links) (id : Nat) :
    (t.set top s').chain id = t.chain id := by
  -- The walk reads nothing but parents.
  have hparent : s'.parent = s.parent := congrArg Prod.fst hl
  induction id using Nat.strongRecOn with
  | ind id ih =>
    rw [chain, chain]
    by_cases hid : id = top
    · subst hid
      have hs' : (t.set id s').scope? id = some s' := by
        rw [scope?_set (lt_of_scope? h), if_pos rfl]
      simp only [get_of_scope? h, get_of_scope? hs', hparent]
      split
      · rfl
      next p _ =>
        split
        next hlt => rw [ih p hlt]
        · rfl
    · rw [get_set h hid]
      split
      · rfl
      · split
        · rfl
        next p _ =>
          split
          next hlt => rw [ih p hlt]
          · rfl

theorem mapM_get_set (h : t.scope? top = some s) {ids : List Nat} (hids : top ∉ ids) :
    ids.mapM (t.set top s').get = ids.mapM t.get := by
  induction ids with
  | nil => rfl
  | cons i ids ih =>
    rw [List.mem_cons, not_or] at hids
    rw [List.mapM_cons, List.mapM_cons, get_set h (Ne.symm hids.1), ih hids.2]

/-- Another scope in the place of one is not seen from a scope that is not below it. -/
theorem above_set (h : t.scope? top = some s) (hl : s'.links = s.links) (hid : ¬t.Within top id) :
    (t.set top s').above id = t.above id := by
  unfold above
  rw [chain_set h hl]
  cases hchain : t.chain id with
  | error e => rfl
  | ok ids => exact mapM_get_set h fun hmem => hid (within_of_mem_chain hchain hmem)

theorem resolve_set (h : t.scope? top = some s) (hl : s'.links = s.links) (hid : ¬t.Within top id)
    (n : String) : (t.set top s').resolve id n = t.resolve id n := by
  have hne : id ≠ top := fun he => hid (he ▸ .self)
  unfold resolve
  rw [above_set h hl hid, get_set h hne]

theorem visible_set (h : t.scope? top = some s) (hl : s'.links = s.links) (hid : ¬t.Within top id) :
    (t.set top s').visible id = t.visible id := by
  unfold visible
  rw [above_set h hl hid]

/-- An export changes one scope, and not where it stands. -/
theorem exists_set_of_export
    (h : (∃ c, t.exportClass top c = .ok t') ∨ ∃ dir cs, t.exportAll top dir cs = .ok t') :
    ∃ s s', t.scope? top = some s ∧ s'.links = s.links ∧ t' = t.set top s' := by
  rcases h with ⟨c, hc⟩ | ⟨dir, cs, hcs⟩
  · obtain ⟨s, s', hs, hrevised, he⟩ := exportClass_eq_ok hc
    exact ⟨s, s', hs, hrevised.links, he⟩
  · obtain ⟨s, hs, hopen, hnew, he⟩ := exportAll_eq_ok hcs
    exact ⟨s, _, hs, (Scope.Revised.exportedAll dir cs hopen hnew).links, he⟩

/-! ## 3. What a scope sees -/

/-- **A scope sees what stands above it, the nearest first, and nothing else.**  At any time a name
stands for the class of the nearest scope on the way up that exports it, and for none if no scope
there does; the set of all visible classes holds just these.  What is exported at a scope changes
nothing for the scopes that are not below it. -/
theorem resolve_nearest (name : String) (calls : List Call) :
    let t := (root name).afterAll calls
    (∀ id s, t.scope? id = some s → ∃ ids, t.Ascends id ids ∧
      (∀ n c, t.resolve id n = .ok c ↔ ∃ before i after, ids = before ++ i :: after ∧
        t.exported? i n = some c ∧ ∀ j ∈ before, t.exported? j n = none) ∧
      (∀ n, t.resolve id n = .error (.classNotFound s.name n) ↔ ∀ i ∈ ids, t.exported? i n = none) ∧
      ∃ m, t.visible id = .ok m ∧ ∀ n c, m[n]? = some c ↔ t.resolve id n = .ok c) ∧
    ∀ top t', ((∃ c, t.exportClass top c = .ok t') ∨ ∃ dir cs, t.exportAll top dir cs = .ok t') →
      ∀ id, ¬t.Within top id →
        (∀ n, t'.resolve id n = t.resolve id n) ∧ t'.visible id = t.visible id := by
  have ht : ((root name).afterAll calls).Sound := (sound_root name).afterAll calls
  generalize (root name).afterAll calls = t at ht
  refine ⟨fun id s h => ?_, fun top t' hexport id hid => ?_⟩
  · obtain ⟨ids, hascends, hresolve, m, hvisible, hm⟩ := ht.exists_first h
    have hok (n : String) (c : CompiledClass) :
        t.resolve id n = .ok c ↔ ids.findSome? (fun i => t.exported? i n) = some c := by
      rw [hresolve]
      cases ids.findSome? fun i => t.exported? i n <;> simp
    have herror (n : String) : t.resolve id n = .error (.classNotFound s.name n) ↔
        ids.findSome? (fun i => t.exported? i n) = none := by
      rw [hresolve]
      cases ids.findSome? fun i => t.exported? i n <;> simp
    refine ⟨ids, hascends, fun n c => ?_, fun n => ?_, m, hvisible, fun n c => ?_⟩
    · rw [hok, List.findSome?_eq_some_iff]
    · rw [herror, List.findSome?_eq_none_iff]
    · rw [hm, hok]
  · obtain ⟨s, s', hs, hlinks, rfl⟩ := exists_set_of_export hexport
    exact ⟨resolve_set hs hlinks hid, visible_set hs hlinks hid⟩

end ScriptPlugins.ScopeTree
