import ScriptPlugins.Outcome
import ScriptPlugins.Scope.Tree

/-!
# Scope trees — what stands above a scope, and what each change leaves alone

The parent of a live scope is live and was made before it, and knows it as its child.  Every change
of a tree keeps this, so that looking up a class never fails for want of a scope, and releasing a
scope leaves none behind that stood below it.
-/

namespace ScriptPlugins

/-- A class that is exported, and the others as before. -/
theorem getElem?_insert_name {α : Type} (m : Std.ExtTreeMap String α) (k n : String) (a : α) :
    (m.insert k a)[n]? = if n = k then some a else m[n]? := by
  rw [Std.ExtTreeMap.getElem?_insert]
  simp only [Std.LawfulEqCmp.compare_eq_iff_eq, eq_comm (b := n)]

/-- What is inserted one after the other, each the only one of its name. -/
theorem getElem?_foldl_insert {ι α : Type} {key : ι → String} {value : ι → α}
    {x : String → Option α} {is : List ι} (his : ∀ i ∈ is, x (key i) = some (value i))
    (m : Std.ExtTreeMap String α) (n : String) :
    (is.foldl (fun m i => m.insert (key i) (value i)) m)[n]? =
      if ∃ i ∈ is, key i = n then x n else m[n]? := by
  induction is generalizing m with
  | nil => simp
  | cons i is ih =>
    rw [List.foldl_cons, ih (fun j hj => his j (List.mem_cons_of_mem _ hj)), getElem?_insert_name]
    by_cases hn : key i = n
    · have hx : x n = some (value i) := hn ▸ his i List.mem_cons_self
      simp [hn, hx]
    · simp [hn, Ne.symm hn]

namespace Scope

/-- Where a scope stands in its tree. -/
def links (s : Scope) : Option Nat × List Nat := (s.parent, s.children)

/-- What a change may make of a scope that stays. -/
inductive Revised (s : Scope) : Scope → Prop
  | locked : Revised s { s with locked := true }
  | reused : Revised s { s with reuses := s.reuses + 1 }
  | exported (c : CompiledClass) (hopen : s.locked = false) (hnew : s.classes[c.name]? = none) :
      Revised s { s with classes := s.classes.insert c.name c }
  | exportedAll (dir : Path) (cs : List CompiledClass) (hopen : s.locked = false)
      (hnew : ∀ c ∈ cs, s.classes[c.name]? = none) :
      Revised s { s with
        classes := cs.foldl (fun m c => m.insert c.name c) s.classes
        directories := s.directories ++ [dir] }

theorem Revised.links {s s' : Scope} (h : s.Revised s') : s'.links = s.links := by
  cases h <;> rfl

end Scope

namespace ScopeTree

variable {t t' : ScopeTree} {id i : Nat} {s : Scope}

/-! ## 1. Slots -/

theorem lt_of_scope? (h : t.scope? id = some s) : id < t.slots.length :=
  (List.getElem?_eq_some_iff.mp (scope?_eq_some.mp h)).1

theorem scope?_set (h : id < t.slots.length) (i : Nat) :
    (t.set id s).scope? i = if i = id then some s else t.scope? i := by
  rw [scope?, set, List.getElem?_set]
  by_cases he : i = id
  · rw [if_pos he.symm, if_pos (he ▸ h), if_pos he]; rfl
  · rw [if_neg (Ne.symm he), if_neg he]; rfl

@[simp] theorem length_set (t : ScopeTree) (id : Nat) (s : Scope) :
    (t.set id s).slots.length = t.slots.length := List.length_set ..

theorem get_eq_ok : t.get id = .ok s ↔ t.scope? id = some s := by
  rw [get]
  cases t.scope? id <;> simp

theorem get_of_scope? (h : t.scope? id = some s) : t.get id = .ok s := get_eq_ok.mpr h

/-! ## 2. Above a scope -/

/-- The parent of a live scope. -/
def parent? (t : ScopeTree) (id : Nat) : Option Nat := (t.scope? id).bind Scope.parent

theorem parent?_eq (h : t.scope? id = some s) : t.parent? id = s.parent := by
  rw [parent?, h, Option.bind_some]

theorem exists_of_parent? {p : Nat} (h : t.parent? id = some p) :
    ∃ s, t.scope? id = some s ∧ s.parent = some p := Option.bind_eq_some_iff.mp h

/-- The links of a tree fit together: the parent of a live scope is live and has a smaller number,
and the children of a live scope are the live scopes whose parent it is, each once. -/
structure Sound (t : ScopeTree) : Prop where
  parent : ∀ id p, t.parent? id = some p → p < id ∧ (t.scope? p).isSome
  nodup : ∀ id s, t.scope? id = some s → s.children.Nodup
  children : ∀ id s, t.scope? id = some s → ∀ c, c ∈ s.children ↔ t.parent? c = some id

theorem sound_root (name : String) : (root name).Sound := by
  -- There is one scope, and it has neither a parent nor children.
  have hone {id : Nat} {s : Scope} (h : (root name).scope? id = some s) : s = .fresh name none := by
    rw [scope?_eq_some] at h
    have hlt := (List.getElem?_eq_some_iff.mp h).1
    obtain rfl : id = 0 := by simpa [root] using hlt
    exact Eq.symm (by simpa [root] using h)
  have hparent (id p : Nat) : (root name).parent? id ≠ some p := by
    intro h
    obtain ⟨s, hs, hp⟩ := exists_of_parent? h
    rw [hone hs] at hp
    cases hp
  refine ⟨fun id p h => absurd h (hparent id p), fun id s h => ?_, fun id s h c => ?_⟩
  · rw [hone h]
    exact .nil
  · rw [hone h]
    exact ⟨fun hc => absurd hc List.not_mem_nil, fun hc => absurd hc (hparent c id)⟩

/-- The way from a live scope up to one without parent, nearest first. -/
inductive Ascends (t : ScopeTree) : Nat → List Nat → Prop
  | top {id : Nat} {s : Scope} (h : t.scope? id = some s) (hp : s.parent = none) :
      Ascends t id [id]
  | step {id p : Nat} {s : Scope} {ids : List Nat} (h : t.scope? id = some s)
      (hp : s.parent = some p) (ha : Ascends t p ids) : Ascends t id (id :: ids)

theorem Ascends.live {ids : List Nat} (h : t.Ascends id ids) : ∀ a ∈ ids, (t.scope? a).isSome := by
  induction h with
  | top h hp => exact fun a ha => List.mem_singleton.mp ha ▸ h ▸ rfl
  | step h hp _ ih =>
    intro a ha
    rcases List.mem_cons.mp ha with rfl | ha
    · exact h ▸ rfl
    · exact ih a ha

/-- The walk up from a live scope ends at one without parent. -/
theorem Sound.ascends (ht : t.Sound) (h : t.scope? id = some s) :
    ∃ above, t.chain id = .ok (id :: above) ∧ t.Ascends id (id :: above) := by
  induction id using Nat.strongRecOn generalizing s with
  | ind id ih =>
    rw [ScopeTree.chain, get_of_scope? h]
    simp only
    cases hp : s.parent with
    | none => exact ⟨[], rfl, .top h hp⟩
    | some p =>
      obtain ⟨hlt, hlive⟩ := ht.parent id p ((parent?_eq h).trans hp)
      obtain ⟨s', hs'⟩ := Option.isSome_iff_exists.mp hlive
      obtain ⟨above, habove, hascends⟩ := ih p hlt hs'
      simp only [if_pos hlt, habove]
      exact ⟨p :: above, rfl, .step h hp hascends⟩

/-- What stands above a scope is itself live. -/
theorem Sound.chain (ht : t.Sound) (h : t.scope? id = some s) :
    ∃ above, t.chain id = .ok (id :: above) ∧ ∀ a ∈ above, (t.scope? a).isSome := by
  obtain ⟨above, hchain, hascends⟩ := ht.ascends h
  exact ⟨above, hchain, fun a ha => hascends.live a (List.mem_cons_of_mem id ha)⟩

theorem mapM_get {ids : List Nat} (h : ∀ a ∈ ids, (t.scope? a).isSome) :
    ∃ ss, ids.mapM t.get = .ok ss ∧ ids.map t.scope? = ss.map some := by
  induction ids with
  | nil => exact ⟨[], rfl, rfl⟩
  | cons a ids ih =>
    obtain ⟨s, hs⟩ := Option.isSome_iff_exists.mp (h a List.mem_cons_self)
    obtain ⟨ss, hss, hmap⟩ := ih fun b hb => h b (List.mem_cons_of_mem a hb)
    refine ⟨s :: ss, ?_, ?_⟩
    · rw [List.mapM_cons, get_of_scope? hs, hss]
      rfl
    · rw [List.map_cons, List.map_cons, hs, hmap]

/-- The scopes from a live scope up to the root begin with the scope itself. -/
theorem Sound.above (ht : t.Sound) (h : t.scope? id = some s) :
    ∃ ss, t.above id = .ok (s :: ss) := by
  obtain ⟨above, hchain, hlive⟩ := ht.chain h
  obtain ⟨ss, hss, -⟩ := mapM_get hlive
  refine ⟨ss, ?_⟩
  rw [ScopeTree.above, hchain]
  show (id :: above).mapM t.get = _
  rw [List.mapM_cons, get_of_scope? h, hss]
  rfl

/-- A class that a scope exports is what its name stands for there. -/
theorem Sound.resolve_exported (ht : t.Sound) (h : t.scope? id = some s) {name : String}
    {c : CompiledClass} (hc : s.classes[name]? = some c) : t.resolve id name = .ok c := by
  obtain ⟨ss, hss⟩ := ht.above h
  simp only [resolve, hss, bind, Except.bind, List.findSome?_cons, hc]

theorem Sound.path (ht : t.Sound) (h : t.scope? id = some s) : ∃ text, t.path id = .ok text := by
  obtain ⟨ss, hss⟩ := ht.above h
  rw [ScopeTree.path, hss]
  exact ⟨_, rfl⟩

/-- A name is looked up in live scopes only. -/
theorem Sound.resolve_cases (ht : t.Sound) (h : t.scope? id = some s) (name : String) :
    (∃ c, t.resolve id name = .ok c) ∨ t.resolve id name = .error (.classNotFound s.name name) := by
  obtain ⟨ss, hss⟩ := ht.above h
  simp only [resolve, hss, get_of_scope? h, bind, Except.bind]
  split
  next c _ => exact .inl ⟨c, rfl⟩
  next => exact .inr rfl

theorem Sound.exists_visible (ht : t.Sound) (h : t.scope? id = some s) :
    ∃ m, t.visible id = .ok m := by
  obtain ⟨ss, hss⟩ := ht.above h
  rw [visible, hss]
  exact ⟨_, rfl⟩

/-! ## 3. Changes -/

/-- A tree whose scopes have the same links is as sound. -/
theorem Sound.of_links (ht : t.Sound)
    (h : ∀ id, (t'.scope? id).map Scope.links = (t.scope? id).map Scope.links) : t'.Sound := by
  have hlive (id : Nat) : (t'.scope? id).isSome = (t.scope? id).isSome := by
    rw [← Option.isSome_map (f := Scope.links), h, Option.isSome_map]
  have hparent (id : Nat) : t'.parent? id = t.parent? id := by
    have hfst := congrArg (Option.bind · Prod.fst) (h id)
    simp only [Option.bind_map] at hfst
    exact hfst
  have hscope {id : Nat} {s' : Scope} (hs' : t'.scope? id = some s') :
      ∃ s, t.scope? id = some s ∧ s'.children = s.children := by
    have hid := h id
    rw [hs', Option.map_some] at hid
    obtain ⟨s, hs, hlinks⟩ := Option.map_eq_some_iff.mp hid.symm
    exact ⟨s, hs, (congrArg Prod.snd hlinks).symm⟩
  refine ⟨fun id p hp => ?_, fun id s' hs' => ?_, fun id s' hs' c => ?_⟩
  · rw [hlive]
    exact ht.parent id p ((hparent id).symm.trans hp)
  · obtain ⟨s, hs, hc⟩ := hscope hs'
    exact hc ▸ ht.nodup id s hs
  · obtain ⟨s, hs, hc⟩ := hscope hs'
    rw [hc, hparent]
    exact ht.children id s hs c

theorem Sound.set (ht : t.Sound) (h : t.scope? id = some s) {s' : Scope} (hl : s'.links = s.links) :
    (t.set id s').Sound := by
  refine ht.of_links fun i => ?_
  rw [scope?_set (lt_of_scope? h)]
  split
  next he => rw [he, h, Option.map_some, Option.map_some, hl]
  next => rfl

/-- A tree with one more scope, below a live one. -/
def grown (t : ScopeTree) (id : Nat) (s : Scope) (name : String) : ScopeTree :=
  ⟨(t.set id { s with children := s.children ++ [t.slots.length] }).slots ++
    [some (.fresh name (some id))]⟩

theorem length_grown (t : ScopeTree) (id : Nat) (s : Scope) (name : String) :
    (t.grown id s name).slots.length = t.slots.length + 1 := by
  rw [grown, List.length_append, length_set, List.length_singleton]

theorem newChild_eq_ok (h : t.scope? id = some s) (name : String) :
    t.newChild id name = .ok (t.slots.length, t.grown id s name) := by
  rw [newChild, get_of_scope? h]
  rfl

theorem scope?_append (t : ScopeTree) (s : Scope) (i : Nat) :
    scope? ⟨t.slots ++ [some s]⟩ i = if i = t.slots.length then some s else t.scope? i := by
  rw [scope?, scope?, List.getElem?_append]
  split
  next hlt => rw [if_neg (Nat.ne_of_lt hlt)]
  next hge =>
    split
    next he => rw [he, Nat.sub_self]; rfl
    next hne =>
      rw [List.getElem?_eq_none (l := [some s]) (by simp only [List.length_singleton]; omega),
        List.getElem?_eq_none (l := t.slots) (by omega)]

theorem scope?_grown (h : t.scope? id = some s) (name : String) (i : Nat) :
    (t.grown id s name).scope? i =
      if i = t.slots.length then some (.fresh name (some id))
      else if i = id then some { s with children := s.children ++ [t.slots.length] }
      else t.scope? i := by
  rw [grown, scope?_append, length_set, scope?_set (lt_of_scope? h)]

theorem scope?_grown_new (h : t.scope? id = some s) (name : String) :
    (t.grown id s name).scope? t.slots.length = some (.fresh name (some id)) := by
  rw [scope?_grown h, if_pos rfl]

theorem parent?_grown (h : t.scope? id = some s) (name : String) (i : Nat) :
    (t.grown id s name).parent? i = if i = t.slots.length then some id else t.parent? i := by
  unfold parent?
  rw [scope?_grown h]
  split
  · rfl
  · split
    next he => rw [he, h, Option.bind_some, Option.bind_some]
    next => rfl

theorem isSome_scope?_grown (h : t.scope? id = some s) (name : String) (hi : (t.scope? i).isSome) :
    ((t.grown id s name).scope? i).isSome := by
  rw [scope?_grown h]
  split
  · rfl
  · split
    · rfl
    · exact hi

/-- The next number is nobody's yet. -/
theorem scope?_length (t : ScopeTree) : t.scope? t.slots.length = none := by
  cases hs : t.scope? t.slots.length with
  | none => rfl
  | some s => exact absurd (lt_of_scope? hs) (Nat.lt_irrefl _)

theorem parent?_length (t : ScopeTree) : t.parent? t.slots.length = none := by
  rw [parent?, scope?_length, Option.bind_none]

theorem Sound.length_notMem_children (ht : t.Sound) (h : t.scope? id = some s) :
    t.slots.length ∉ s.children := by
  rw [ht.children id s h, parent?_length]
  exact nofun

/-- The scopes of a tree with one more child: the child, its parent, which lists it, and the
others. -/
theorem scope?_grown_cases (h : t.scope? id = some s) {name : String} {s' : Scope}
    (hs' : (t.grown id s name).scope? i = some s') :
    i = t.slots.length ∧ s' = .fresh name (some id) ∨
      i = id ∧ s' = { s with children := s.children ++ [t.slots.length] } ∨
      i ≠ t.slots.length ∧ i ≠ id ∧ t.scope? i = some s' := by
  rw [scope?_grown h] at hs'
  split at hs'
  next hi => exact .inl ⟨hi, (Option.some.inj hs').symm⟩
  next hi =>
    split at hs'
    next hid => exact .inr (.inl ⟨hid, (Option.some.inj hs').symm⟩)
    next hid => exact .inr (.inr ⟨hi, hid, hs'⟩)

/-- A child is sound if its parent is live. -/
theorem Sound.grown (ht : t.Sound) (h : t.scope? id = some s) (name : String) :
    (t.grown id s name).Sound := by
  have hlt := lt_of_scope? h
  -- The new number is no child yet, and no parent.
  have hnoChild := t.parent?_length
  have hnoParent (c : Nat) : t.parent? c ≠ some t.slots.length := by
    intro hc
    have hlive := (ht.parent c _ hc).2
    rw [scope?_length] at hlive
    cases hlive
  refine ⟨fun i p hp => ?_, fun i s' hs' => ?_, fun i s' hs' c => ?_⟩
  · rw [parent?_grown h] at hp
    split at hp
    next he =>
      cases hp
      exact ⟨he ▸ hlt, isSome_scope?_grown h name (h ▸ rfl)⟩
    next =>
      obtain ⟨hpi, hlive⟩ := ht.parent i p hp
      exact ⟨hpi, isSome_scope?_grown h name hlive⟩
  · rcases scope?_grown_cases h hs' with ⟨-, rfl⟩ | ⟨-, rfl⟩ | ⟨-, -, hs'⟩
    · exact .nil
    · refine List.nodup_append.mpr ⟨ht.nodup id s h, List.pairwise_singleton ..,
        fun a ha b hb he => ?_⟩
      rw [List.mem_singleton.mp hb] at he
      exact ht.length_notMem_children h (he ▸ ha)
    · exact ht.nodup i s' hs'
  · rw [parent?_grown h]
    rcases scope?_grown_cases h hs' with ⟨rfl, rfl⟩ | ⟨rfl, rfl⟩ | ⟨-, hi, hs'⟩
    · refine ⟨fun hc => absurd hc List.not_mem_nil, fun hc => ?_⟩
      split at hc
      · exact absurd (Option.some.inj hc).symm (Nat.ne_of_gt hlt)
      · exact absurd hc (hnoParent c)
    · rw [List.mem_append, List.mem_singleton, ht.children i s h]
      by_cases hc : c = t.slots.length
      · simp only [hc, or_true, if_true]
      · simp only [hc, or_false, if_false]
    · rw [ht.children i s' hs']
      by_cases hc : c = t.slots.length
      · simp only [hc, hnoChild, if_true, Option.some.injEq, reduceCtorEq, false_iff]
        exact Ne.symm hi
      · simp only [hc, if_false]

theorem Sound.newChild {name : String} (ht : t.Sound) (h : t.newChild id name = .ok (i, t')) :
    t'.Sound := by
  cases hs : t.scope? id with
  | none =>
    rw [ScopeTree.newChild, get, hs] at h
    cases h
  | some s =>
    rw [newChild_eq_ok hs] at h
    cases h
    exact ht.grown hs name

theorem modify_eq_ok {f : Scope → Scope} (h : t.modify id f = .ok t') :
    ∃ s, t.scope? id = some s ∧ t' = t.set id (f s) := by
  cases hs : t.scope? id with
  | none =>
    rw [modify, get, hs] at h
    cases h
  | some s =>
    rw [modify, get_of_scope? hs] at h
    cases h
    exact ⟨s, rfl, rfl⟩

theorem unlocked_eq_ok {operation : String} (h : t.unlocked id operation = .ok s) :
    t.scope? id = some s ∧ s.locked = false := by
  cases hs : t.scope? id with
  | none =>
    rw [unlocked, get, hs] at h
    cases h
  | some s' =>
    rw [unlocked, get_of_scope? hs] at h
    change (if s'.locked then _ else _) = _ at h
    split at h
    · cases h
    next hl =>
      cases h
      exact ⟨rfl, Bool.eq_false_iff.mpr hl⟩

theorem unlocked_of_open (h : t.scope? id = some s) (hopen : s.locked = false)
    (operation : String) : t.unlocked id operation = .ok s := by
  rw [unlocked, get_of_scope? h]
  show (if s.locked then _ else _) = _
  rw [hopen]
  rfl

theorem exportClass_eq_ok {c : CompiledClass} (h : t.exportClass id c = .ok t') :
    ∃ s s', t.scope? id = some s ∧ s.Revised s' ∧ t' = t.set id s' := by
  rw [exportClass] at h
  cases hu : t.unlocked id "export a class" with
  | error e =>
    rw [hu] at h
    cases h
  | ok s =>
    obtain ⟨hs, hopen⟩ := unlocked_eq_ok hu
    rw [hu] at h
    change (if _ then _ else _) = _ at h
    split at h
    · cases h
    next hc =>
      cases h
      rw [Std.ExtTreeMap.contains_eq_isSome_getElem?] at hc
      exact ⟨s, _, hs, .exported c hopen (Option.not_isSome_iff_eq_none.mp hc), rfl⟩

theorem exportAll_eq_ok {dir : Path} {cs : List CompiledClass}
    (h : t.exportAll id dir cs = .ok t') :
    ∃ s, t.scope? id = some s ∧ s.locked = false ∧ (∀ c ∈ cs, s.classes[c.name]? = none) ∧
      t' = t.set id { s with
        classes := cs.foldl (fun m c => m.insert c.name c) s.classes
        directories := s.directories ++ [dir] } := by
  rw [exportAll] at h
  cases hu : t.unlocked id exportingDirectory with
  | error e =>
    rw [hu] at h
    cases h
  | ok s =>
    obtain ⟨hs, hopen⟩ := unlocked_eq_ok hu
    rw [hu] at h
    simp only [bind, Except.bind] at h
    split at h
    · cases h
    next hnone =>
      cases h
      refine ⟨s, hs, hopen, fun c hc => ?_, rfl⟩
      have hnot := List.find?_eq_none.mp hnone c hc
      rw [Std.ExtTreeMap.contains_eq_isSome_getElem?] at hnot
      exact Option.not_isSome_iff_eq_none.mp hnot

/-- An open scope exports classes that have no name of one which it exports already. -/
theorem exportAll_of_open (h : t.scope? id = some s) (hopen : s.locked = false) (dir : Path)
    {cs : List CompiledClass} (hnew : ∀ c ∈ cs, s.classes[c.name]? = none) :
    t.exportAll id dir cs = .ok (t.set id { s with
      classes := cs.foldl (fun m c => m.insert c.name c) s.classes
      directories := s.directories ++ [dir] }) := by
  have hfind : cs.find? (fun c => s.classes.contains c.name) = none := by
    rw [List.find?_eq_none]
    intro c hc
    rw [Std.ExtTreeMap.contains_eq_isSome_getElem?, hnew c hc]
    simp
  simp only [exportAll, unlocked_of_open h hopen, hfind, bind, Except.bind]
  rfl

/-- An open scope refuses classes if it exports the name of one, and says the first such name. -/
theorem exportAll_of_taken (h : t.scope? id = some s) (hopen : s.locked = false) (dir : Path)
    {before after : List CompiledClass} {c : CompiledClass}
    (hbefore : ∀ b ∈ before, s.classes[b.name]? = none) (hc : s.classes[c.name]? ≠ none) :
    t.exportAll id dir (before ++ c :: after) = .error (.duplicateClass s.name c.name) := by
  have hfind : (before ++ c :: after).find? (fun c => s.classes.contains c.name) = some c := by
    refine List.find?_eq_some_iff_append.mpr ⟨?_, before, after, rfl, fun b hb => ?_⟩
    · rw [Std.ExtTreeMap.contains_eq_isSome_getElem?]
      exact Option.isSome_iff_ne_none.mpr hc
    · rw [Std.ExtTreeMap.contains_eq_isSome_getElem?, hbefore b hb]
      rfl
  simp only [exportAll, unlocked_of_open h hopen, hfind, bind, Except.bind]

/-- A change that is made revises one scope, or releases one. -/
theorem apply_eq_ok {c : Change} (h : t.apply c = .ok t') :
    (∃ id s s', t.scope? id = some s ∧ s.Revised s' ∧ t' = t.set id s') ∨
      ∃ id names, t.release id = .ok (names, t') := by
  cases c with
  | lock id =>
    obtain ⟨s, hs, rfl⟩ := modify_eq_ok h
    exact .inl ⟨id, s, _, hs, .locked, rfl⟩
  | reuse id =>
    obtain ⟨s, hs, rfl⟩ := modify_eq_ok h
    exact .inl ⟨id, s, _, hs, .reused, rfl⟩
  | exportClass id c => exact .inl ⟨id, exportClass_eq_ok h⟩
  | exportAll id dir cs =>
    obtain ⟨s, hs, hopen, hnew, rfl⟩ := exportAll_eq_ok h
    exact .inl ⟨id, s, _, hs, .exportedAll dir cs hopen hnew, rfl⟩
  | release id =>
    obtain ⟨⟨names, _⟩, hrelease, rfl⟩ := map_eq_ok h
    exact .inr ⟨id, names, hrelease⟩

/-! ## 4. Tearing down -/

/-- A scope is another one, or stands below it. -/
inductive Within (t : ScopeTree) (top : Nat) : Nat → Prop
  | self : Within t top top
  | under {p i : Nat} (h : Within t top p) (hi : t.parent? i = some p) : Within t top i

/-- What hangs on a list of scopes: those that are live, and the live children of what hangs on
it. -/
inductive Hangs (t : ScopeTree) (pending : List Nat) : Nat → Prop
  | listed {i : Nat} (hi : i ∈ pending) (hlive : (t.scope? i).isSome) : Hangs t pending i
  | child {j i : Nat} {s : Scope} (hj : Hangs t pending j) (hs : t.scope? j = some s)
      (hi : i ∈ s.children) (hlive : (t.scope? i).isSome) : Hangs t pending i

theorem scope?_free (t : ScopeTree) (id i : Nat) :
    (t.free id).scope? i = if i = id then none else t.scope? i := by
  unfold scope? free
  rw [List.getElem?_set]
  by_cases he : i = id
  · rw [if_pos he.symm, if_pos he]
    split <;> rfl
  · rw [if_neg (Ne.symm he), if_neg he]

/-- What is live without a scope is another one. -/
theorem ne_of_live_free (h : ((t.free id).scope? i).isSome) : i ≠ id := by
  rintro rfl
  rw [scope?_free, if_pos rfl] at h
  cases h

theorem Hangs.live {pending : List Nat} (h : t.Hangs pending i) : (t.scope? i).isSome := by
  cases h with
  | listed _ hlive => exact hlive
  | child _ _ _ hlive => exact hlive

/-- Nothing hangs on a scope that is gone. -/
theorem hangs_of_dead {pending : List Nat} (h : t.scope? id = none) :
    t.Hangs (id :: pending) i ↔ t.Hangs pending i := by
  constructor
  · intro hi
    induction hi with
    | listed hi hlive =>
      refine .listed ((List.mem_cons.mp hi).resolve_left ?_) hlive
      rintro rfl
      rw [h] at hlive
      cases hlive
    | child _ hs hi hlive ih => exact .child ih hs hi hlive
  · intro hi
    induction hi with
    | listed hi hlive => exact .listed (List.mem_cons_of_mem id hi) hlive
    | child _ hs hi hlive ih => exact .child ih hs hi hlive

/-- What hangs on a live scope is the scope itself and what hangs on its children without it. -/
theorem hangs_of_live {pending : List Nat} (h : t.scope? id = some s) :
    t.Hangs (id :: pending) i ↔ i = id ∨ (t.free id).Hangs (s.children.reverse ++ pending) i := by
  have hother {j : Nat} (hj : j ≠ id) : (t.free id).scope? j = t.scope? j := by
    rw [scope?_free, if_neg hj]
  constructor
  · intro hi
    induction hi with
    | @listed i hi hlive =>
      by_cases he : i = id
      · exact .inl he
      · refine .inr (.listed ?_ (hother he ▸ hlive))
        exact List.mem_append_right _ ((List.mem_cons.mp hi).resolve_left he)
    | @child j i sj hj hs hi hlive ih =>
      by_cases he : i = id
      · exact .inl he
      · right
        rcases ih with hid | ih
        · -- What hung on the scope as its child is listed now that the scope is gone.
          subst hid
          cases hs.symm.trans h
          exact .listed (List.mem_append_left _ (List.mem_reverse.mpr hi)) (hother he ▸ hlive)
        · have hne : j ≠ id := ne_of_live_free ih.live
          exact .child ih ((hother hne).trans hs) hi (hother he ▸ hlive)
  · rintro (rfl | hi)
    · exact .listed List.mem_cons_self (h ▸ rfl)
    · induction hi with
      | @listed i hi hlive =>
        rw [hother (ne_of_live_free hlive)] at hlive
        rcases List.mem_append.mp hi with hi | hi
        · exact .child (.listed List.mem_cons_self (h ▸ rfl)) h (List.mem_reverse.mp hi) hlive
        · exact .listed (List.mem_cons_of_mem id hi) hlive
      | @child j i sj _ hs hi hlive ih =>
        have hj : j ≠ id := ne_of_live_free (by rw [hs]; rfl)
        have hsj : t.scope? j = some sj := (hother hj).symm.trans hs
        exact .child ih hsj hi (hother (ne_of_live_free hlive) ▸ hlive)

/-- Exactly what hangs on a list is torn down with it. -/
theorem scope?_tearDown (t : ScopeTree) (pending : List Nat) (i : Nat) :
    (t.Hangs pending i → (t.tearDown pending).2.scope? i = none) ∧
      (¬t.Hangs pending i → (t.tearDown pending).2.scope? i = t.scope? i) := by
  fun_induction tearDown t pending with
  | case1 t =>
    refine ⟨fun hi => ?_, fun _ => rfl⟩
    induction hi with
    | listed hi _ => cases hi
    | child _ hs hi hlive ih =>
      rw [hs] at ih
      cases ih
  | case2 t id pending h ih => rwa [hangs_of_dead h]
  | case3 t id pending s h names t' he ih =>
    rw [he] at ih
    rw [hangs_of_live h]
    refine ⟨fun hi => ?_, fun hi => ?_⟩
    · by_cases hhangs : (t.free id).Hangs (s.children.reverse ++ pending) i
      · exact ih.1 hhangs
      · obtain rfl := hi.resolve_right hhangs
        rw [ih.2 hhangs, scope?_free, if_pos rfl]
    · rw [not_or] at hi
      rw [ih.2 hi.2, scope?_free, if_neg hi.1]

theorem length_tearDown (t : ScopeTree) (pending : List Nat) :
    (t.tearDown pending).2.slots.length = t.slots.length := by
  fun_induction tearDown t pending with
  | case1 t => rfl
  | case2 t id pending h ih => exact ih
  | case3 t id pending s h names t' he ih =>
    rw [he] at ih
    exact ih.trans (List.length_set ..)

/-! ## 5. Releasing -/

theorem scope?_disown (t : ScopeTree) (parent : Option Nat) (id i : Nat) :
    (t.disown parent id).scope? i =
      (t.scope? i).map fun s => if parent = some i then s.withoutChild id else s := by
  unfold disown scope?
  cases parent with
  | none => simp
  | some p =>
    simp only [Option.some.injEq]
    rw [List.getElem?_modify]
    by_cases hp : p = i
    · simp only [hp, if_true]
      rcases t.slots[i]? with _ | _ | s <;> rfl
    · simp only [hp, if_false]
      rcases t.slots[i]? with _ | _ | s <;> rfl

theorem length_disown (t : ScopeTree) (parent : Option Nat) (id : Nat) :
    (t.disown parent id).slots.length = t.slots.length := by
  cases parent with
  | none => rfl
  | some p => exact List.length_modify ..

theorem Sound.le_of_within (ht : t.Sound) (h : t.Within id i) : id ≤ i := by
  induction h with
  | self => exact Nat.le_refl _
  | under _ hi ih => exact Nat.le_trans ih (Nat.le_of_lt (ht.parent _ _ hi).1)

/-- What hangs on a scope, by the children that each scope lists, is what stands below it, by the
parent that each scope names. -/
theorem Sound.hangs_iff (ht : t.Sound) (h : t.scope? id = some s) :
    (t.disown s.parent id).Hangs [id] i ↔ t.Within id i ∧ (t.scope? i).isSome := by
  have hlive (j : Nat) : ((t.disown s.parent id).scope? j).isSome = (t.scope? j).isSome := by
    rw [scope?_disown, Option.isSome_map]
  constructor
  · intro hi
    refine ⟨?_, hlive i ▸ hi.live⟩
    induction hi with
    | listed hi _ => exact List.mem_singleton.mp hi ▸ .self
    | @child j i sj _ hs hi _ ih =>
      rw [scope?_disown] at hs
      obtain ⟨s', hs', rfl⟩ := Option.map_eq_some_iff.mp hs
      refine .under ih ((ht.children j s' hs' i).mp ?_)
      split at hi
      · exact (List.mem_filter.mp hi).1
      · exact hi
  · rintro ⟨hi, hsome⟩
    induction hi with
    | self => exact .listed (List.mem_singleton.mpr rfl) ((hlive id).trans hsome)
    | @under p i hp hi ih =>
      obtain ⟨hlt, hpsome⟩ := ht.parent i p hi
      obtain ⟨s', hs'⟩ := Option.isSome_iff_exists.mp hpsome
      have hs'' := scope?_disown t s.parent id p
      rw [hs', Option.map_some] at hs''
      refine .child (ih hpsome) hs'' ?_ ((hlive i).trans hsome)
      -- The parent of the released scope is not torn down, as it was made before.
      have hne : s.parent ≠ some p := fun hsp => by
        have hid := (ht.parent id p ((parent?_eq h).trans hsp)).1
        have hle := ht.le_of_within hp
        omega
      rw [if_neg hne]
      exact (ht.children p s' hs' i).mpr hi

theorem release_eq (h : t.scope? id = some s) :
    t.release id = .ok ((t.disown s.parent id).tearDown [id]) := by
  unfold ScopeTree.release
  rw [get_of_scope? h]
  rfl

/-- Whatever the links of a tree are, a release keeps every number, frees some scopes and leaves the
others with at most a child less. -/
theorem of_release {names : List String} (h : t.scope? id = some s)
    (hrelease : t.release id = .ok (names, t')) :
    t'.slots.length = t.slots.length ∧ ∀ i, t'.scope? i = none ∨ t'.scope? i =
      (t.scope? i).map fun si => if s.parent = some i then si.withoutChild id else si := by
  have he : t' = ((t.disown s.parent id).tearDown [id]).2 :=
    congrArg Prod.snd (Except.ok.inj (hrelease.symm.trans (release_eq h)))
  subst he
  refine ⟨(length_tearDown ..).trans (length_disown ..), fun i => ?_⟩
  rw [← scope?_disown]
  by_cases hhangs : (t.disown s.parent id).Hangs [id] i
  · exact .inl ((scope?_tearDown ..).1 hhangs)
  · exact .inr ((scope?_tearDown ..).2 hhangs)

theorem scope?_of_release {names : List String} (h : t.scope? id = some s)
    (hrelease : t.release id = .ok (names, t')) : t'.scope? id = none := by
  have he : t' = ((t.disown s.parent id).tearDown [id]).2 :=
    congrArg Prod.snd (Except.ok.inj (hrelease.symm.trans (release_eq h)))
  rw [he]
  refine (scope?_tearDown ..).1 (.listed (List.mem_singleton.mpr rfl) ?_)
  rw [scope?_disown, h]
  rfl

/-- Releasing a live scope frees it and what stands below it.  Nothing else changes, but that its
parent has one child less. -/
theorem Sound.exists_release (ht : t.Sound) (h : t.scope? id = some s) :
    ∃ names t', t.release id = .ok (names, t') ∧ t'.slots.length = t.slots.length ∧
      (∀ i, t.Within id i → t'.scope? i = none) ∧
      ∀ i, ¬t.Within id i → t'.scope? i =
        (t.scope? i).map fun si => if s.parent = some i then si.withoutChild id else si := by
  refine ⟨_, _, release_eq h, ?_, fun i hi => ?_, fun i hi => ?_⟩
  · exact (length_tearDown ..).trans (length_disown ..)
  · by_cases hlive : (t.scope? i).isSome
    · exact (scope?_tearDown ..).1 ((ht.hangs_iff h).mpr ⟨hi, hlive⟩)
    · rw [(scope?_tearDown ..).2 fun hhangs => hlive ((ht.hangs_iff h).mp hhangs).2, scope?_disown,
        Option.not_isSome_iff_eq_none.mp hlive, Option.map_none]
  · rw [(scope?_tearDown ..).2 fun hhangs => hi ((ht.hangs_iff h).mp hhangs).1, scope?_disown]

/-- Nothing stands below the last scope of a tree. -/
theorem Sound.eq_of_within_last (ht : t.Sound) {last : Nat} (hlast : t.slots.length = last + 1)
    (h : t.Within last i) : i = last := by
  cases h with
  | self => rfl
  | @under p _ hp hi =>
    have hle : last ≤ p := ht.le_of_within hp
    have hlt : p < i := (ht.parent i p hi).1
    obtain ⟨s, hs, -⟩ := exists_of_parent? hi
    have hbound : i < t.slots.length := lt_of_scope? hs
    omega

/-- A child that is made, revised and released again leaves every scope as it was. -/
theorem Sound.release_grown (ht : t.Sound) (h : t.scope? id = some s) (name : String)
    (child : Scope)
    (hlinks : child.links = (Scope.fresh name (some id)).links) {names : List String}
    (hrelease : ((t.grown id s name).set t.slots.length child).release t.slots.length =
      .ok (names, t')) (i : Nat) : t'.scope? i = t.scope? i := by
  have hnew := scope?_grown_new h name
  have hlt := lt_of_scope? hnew
  have hchild : ((t.grown id s name).set t.slots.length child).scope? t.slots.length =
      some child := by
    rw [scope?_set hlt, if_pos rfl]
  have hsound := (ht.grown h name).set hnew hlinks
  obtain ⟨_, _, hrelease', -, hgone, hstays⟩ := hsound.exists_release hchild
  cases hrelease.symm.trans hrelease'
  by_cases hi : i = t.slots.length
  · rw [hi, hgone _ .self, scope?_length]
  · have hbelow : ¬((t.grown id s name).set t.slots.length child).Within t.slots.length
        i := fun hw =>
      hi (hsound.eq_of_within_last ((length_set ..).trans (length_grown ..)) hw)
    have hparent : child.parent = some id := congrArg Prod.fst hlinks
    rw [hstays i hbelow, scope?_set hlt, if_neg hi, scope?_grown h, if_neg hi, hparent]
    by_cases hid : i = id
    · -- The parent lists one child less, and the child that goes is the one that came.
      have hkept : s.children.filter (· ≠ t.slots.length) = s.children :=
        List.filter_eq_self.mpr fun c hc => decide_eq_true fun he =>
          ht.length_notMem_children h (he ▸ hc)
      have hgoes : (s.children ++ [t.slots.length]).filter (· ≠ t.slots.length) = s.children := by
        rw [List.filter_append, hkept]
        simp
      rw [if_pos hid, hid, h, Option.map_some, if_pos rfl, Scope.withoutChild, hgoes]
    · have hne : some id ≠ some i := fun he => hid (Option.some.inj he).symm
      simp only [if_neg hid, if_neg hne]
      exact Option.map_id'

/-- A tree without a scope and what stands below it: their parent has one child less, and all others
are as they were. -/
structure Pruned (t : ScopeTree) (id : Nat) (s : Scope) (t' : ScopeTree) : Prop where
  gone : ∀ i, t.Within id i → t'.scope? i = none
  stays : ∀ i, ¬t.Within id i → t'.scope? i =
    (t.scope? i).map fun si => if s.parent = some i then si.withoutChild id else si

/-- A scope that is left stood there before. -/
theorem Pruned.exists_left (h : t.Pruned id s t') {s' : Scope} (hs' : t'.scope? i = some s') :
    ∃ si, t.scope? i = some si ∧ ¬t.Within id i ∧
      s' = if s.parent = some i then si.withoutChild id else si := by
  have hi : ¬t.Within id i := fun hw => by
    rw [h.gone i hw] at hs'
    cases hs'
  rw [h.stays i hi] at hs'
  obtain ⟨si, hsi, rfl⟩ := Option.map_eq_some_iff.mp hs'
  exact ⟨si, hsi, hi, rfl⟩

/-- It has the parent that it had. -/
theorem Pruned.parent?_eq_some_iff (h : t.Pruned id s t') {p : Nat} :
    t'.parent? i = some p ↔ t.parent? i = some p ∧ ¬t.Within id i := by
  by_cases hw : t.Within id i
  · rw [parent?, h.gone i hw]
    exact ⟨nofun, fun hp => absurd hw hp.2⟩
  · have hparent : t'.parent? i = t.parent? i := by
      unfold parent?
      rw [h.stays i hw]
      cases t.scope? i with
      | none => rfl
      | some si =>
        rw [Option.map_some, Option.bind_some, Option.bind_some]
        split <;> rfl
    rw [hparent]
    exact ⟨fun hp => ⟨hp, hw⟩, fun hp => hp.1⟩

/-- Of the children of a scope that is left, only the released one goes. -/
theorem within_child_iff {c : Nat} (hi : ¬t.Within id i) (hc : t.parent? c = some i) :
    t.Within id c ↔ c = id := by
  refine ⟨fun hw => ?_, fun he => he ▸ .self⟩
  cases hw with
  | self => rfl
  | under hp hc' =>
    cases hc.symm.trans hc'
    exact absurd hp hi

theorem Sound.pruned (ht : t.Sound) (hs : t.scope? id = some s) (h : t.Pruned id s t') :
    t'.Sound := by
  refine ⟨fun i p hp => ?_, fun i s' hs' => ?_, fun i s' hs' c => ?_⟩
  · obtain ⟨hp, hi⟩ := h.parent?_eq_some_iff.mp hp
    obtain ⟨hlt, hlive⟩ := ht.parent i p hp
    refine ⟨hlt, ?_⟩
    rwa [h.stays p fun hw => hi (.under hw hp), Option.isSome_map]
  · obtain ⟨si, hsi, -, rfl⟩ := h.exists_left hs'
    split
    · exact (ht.nodup i si hsi).filter _
    · exact ht.nodup i si hsi
  · obtain ⟨si, hsi, hi, rfl⟩ := h.exists_left hs'
    have hmem := ht.children i si hsi c
    rw [h.parent?_eq_some_iff]
    split
    · rw [Scope.withoutChild, List.mem_filter, decide_eq_true_eq, hmem]
      exact and_congr_right fun hc => not_congr (within_child_iff hi hc).symm
    next hne =>
      -- The released scope is the child of another one, so no child of this one goes.
      rw [hmem]
      refine ⟨fun hc => ⟨hc, fun hw => hne ?_⟩, And.left⟩
      rw [← parent?_eq hs, ← (within_child_iff hi hc).mp hw, hc]

theorem Sound.release {names : List String} (ht : t.Sound) (h : t.release id = .ok (names, t')) :
    t'.Sound := by
  cases hs : t.scope? id with
  | none =>
    rw [ScopeTree.release, get, hs] at h
    cases h
  | some s =>
    obtain ⟨_, _, hrelease, -, hgone, hstays⟩ := ht.exists_release hs
    cases h.symm.trans hrelease
    exact ht.pruned hs ⟨hgone, hstays⟩

/-- No change makes a tree unsound. -/
theorem Sound.apply (ht : t.Sound) {c : Change} (h : t.apply c = .ok t') : t'.Sound := by
  rcases apply_eq_ok h with ⟨id, s, s', hs, hrevised, rfl⟩ | ⟨id, names, hrelease⟩
  · exact ht.set hs hrevised.links
  · exact ht.release hrelease

end ScopeTree

end ScriptPlugins
