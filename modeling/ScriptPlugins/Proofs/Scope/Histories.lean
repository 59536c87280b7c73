import ScriptPlugins.Proofs.Scope.Trees

/-!
# Histories of scope trees — a tree stays a tree, whatever is done to it

Scopes are made, changed and released in any order, also through the numbers of scopes that are
gone.  At any time the links of the tree fit together: the way up from a live scope leads through
live scopes to one without parent, and the children that a scope lists are the live scopes that name
it as their parent.  So releasing a scope, which goes down by the children, takes exactly what
stands below it by the parents.  What is released stays released.
-/

namespace ScriptPlugins.ScopeTree

variable {t t' : ScopeTree} {id i : Nat} {s : Scope}

/-! ## 1. Calls -/

/-- An operation on a tree. -/
inductive Call where
  | newChild (parent : Nat) (name : String)
  | change (c : Change)

/-- The tree after a call.  One that is refused leaves the tree as it is. -/
def after (t : ScopeTree) : Call → ScopeTree
  | .newChild parent name =>
    match t.newChild parent name with
    | .ok (_, t') => t'
    | .error _ => t
  | .change c =>
    match t.apply c with
    | .ok t' => t'
    | .error _ => t

/-- The tree after some calls. -/
def afterAll (t : ScopeTree) (calls : List Call) : ScopeTree := calls.foldl after t

/-- All that a call can do: nothing, a new scope below a live one, a scope revised or one
released. -/
theorem after_cases (t : ScopeTree) (call : Call) :
    t.after call = t ∨
      (∃ parent s name, t.scope? parent = some s ∧ t.after call = t.grown parent s name) ∨
      (∃ id s s', t.scope? id = some s ∧ s.Revised s' ∧ t.after call = t.set id s') ∨
      ∃ id s names, t.scope? id = some s ∧ t.release id = .ok (names, t.after call) := by
  cases call with
  | newChild parent name =>
    cases hs : t.scope? parent with
    | none =>
      left
      simp only [after, newChild, get, hs]
      rfl
    | some s =>
      refine .inr (.inl ⟨parent, s, name, hs, ?_⟩)
      simp only [after, newChild_eq_ok hs]
  | change c =>
    cases h : t.apply c with
    | error e => exact .inl (by simp only [after, h])
    | ok t' =>
      have he : t.after (.change c) = t' := by simp only [after, h]
      rw [he]
      -- Every change but a release revises one scope.
      rcases apply_eq_ok h with ⟨id, s, s', hs, hrevised, rfl⟩ | ⟨id, names, hrelease⟩
      · exact .inr (.inr (.inl ⟨id, s, s', hs, hrevised, rfl⟩))
      · cases hs : t.scope? id with
        | none =>
          rw [ScopeTree.release, get, hs] at hrelease
          cases hrelease
        | some s => exact .inr (.inr (.inr ⟨id, s, names, hs, hrelease⟩))

/-- What becomes of one scope from a tree to the next: it is revised, keeps all but its children, is
not there any more, or is made with the next number. -/
inductive Becomes (t t' : ScopeTree) (id : Nat) : Prop
  | revised {s s' : Scope} (h : t.scope? id = some s) (h' : t'.scope? id = some s')
      (hrevised : s.Revised s') : Becomes t t' id
  | kept {s : Scope} {children : List Nat} (h : t.scope? id = some s)
      (h' : t'.scope? id = some { s with children }) : Becomes t t' id
  | absent (h' : t'.scope? id = none) : Becomes t t' id
  | made {name : String} {parent : Option Nat} (hid : id = t.slots.length)
      (h' : t'.scope? id = some (.fresh name parent)) : Becomes t t' id

theorem Becomes.of_eq (he : t'.scope? id = t.scope? id) : t.Becomes t' id := by
  cases hs : t.scope? id with
  | none => exact .absent (he.trans hs)
  | some s =>
    have hs' : t'.scope? id = some { s with children := s.children } := he.trans hs
    exact .kept hs hs'

theorem becomes_grown {parent : Nat} (h : t.scope? parent = some s) (name : String) (id : Nat) :
    t.Becomes (t.grown parent s name) id := by
  have hgrown := scope?_grown h name id
  by_cases hnew : id = t.slots.length
  · rw [if_pos hnew] at hgrown
    exact .made hnew hgrown
  · rw [if_neg hnew] at hgrown
    by_cases hid : id = parent
    · rw [if_pos hid] at hgrown
      exact .kept (hid ▸ h) hgrown
    · rw [if_neg hid] at hgrown
      exact .of_eq hgrown

theorem becomes_set {top : Nat} {s' : Scope} (h : t.scope? top = some s) (hrevised : s.Revised s')
    (id : Nat) : t.Becomes (t.set top s') id := by
  have hset := scope?_set (s := s') (lt_of_scope? h) id
  by_cases hid : id = top
  · rw [if_pos hid] at hset
    exact .revised (hid ▸ h) hset hrevised
  · rw [if_neg hid] at hset
    exact .of_eq hset

theorem becomes_release {top : Nat} {names : List String} (h : t.scope? top = some s)
    (hrelease : t.release top = .ok (names, t')) (id : Nat) : t.Becomes t' id := by
  rcases (of_release h hrelease).2 id with hfree | hstays
  · exact .absent hfree
  · cases hi : t.scope? id with
    | none =>
      rw [hi, Option.map_none] at hstays
      exact .absent hstays
    | some si =>
      rw [hi, Option.map_some] at hstays
      by_cases hparent : s.parent = some id
      · rw [if_pos hparent] at hstays
        exact .kept hi hstays
      · rw [if_neg hparent] at hstays
        exact .of_eq (hstays.trans hi.symm)

theorem becomes_after (t : ScopeTree) (call : Call) (id : Nat) : t.Becomes (t.after call) id := by
  rcases t.after_cases call with he | ⟨parent, s, name, hs, he⟩ | ⟨top, s, s', hs, hrevised, he⟩ |
    ⟨top, s, names, hs, hrelease⟩
  · exact .of_eq (by rw [he])
  · rw [he]
    exact becomes_grown hs name id
  · rw [he]
    exact becomes_set hs hrevised id
  · exact becomes_release hs hrelease id

theorem Sound.after (ht : t.Sound) (call : Call) : (t.after call).Sound := by
  rcases t.after_cases call with he | ⟨parent, s, name, hs, he⟩ | ⟨id, s, s', hs, hrevised, he⟩ |
    ⟨id, s, names, hs, hrelease⟩
  · rwa [he]
  · rw [he]
    exact ht.grown hs name
  · rw [he]
    exact ht.set hs hrevised.links
  · exact ht.release hrelease

theorem Sound.afterAll (ht : t.Sound) (calls : List Call) : (t.afterAll calls).Sound := by
  induction calls generalizing t with
  | nil => exact ht
  | cons call calls ih => exact ih (ht.after call)

/-! ## 2. What is released stays released -/

/-- The number of a scope that is gone. -/
def Gone (t : ScopeTree) (id : Nat) : Prop := id < t.slots.length ∧ t.scope? id = none

theorem length_le_after (t : ScopeTree) (call : Call) :
    t.slots.length ≤ (t.after call).slots.length := by
  rcases t.after_cases call with he | ⟨parent, s, name, hs, he⟩ | ⟨top, s, s', hs, -, he⟩ |
    ⟨top, s, names, hs, hrelease⟩
  · exact Nat.le_of_eq (by rw [he])
  · rw [he, length_grown]
    omega
  · exact Nat.le_of_eq (by rw [he, length_set])
  · exact Nat.le_of_eq (of_release hs hrelease).1.symm

theorem Gone.after (h : t.Gone id) (call : Call) : (t.after call).Gone id := by
  refine ⟨Nat.lt_of_lt_of_le h.1 (t.length_le_after call), ?_⟩
  cases t.becomes_after call id with
  | revised hs _ _ =>
    rw [h.2] at hs
    cases hs
  | kept hs _ =>
    rw [h.2] at hs
    cases hs
  | absent hnone => exact hnone
  -- A number that was given out is not given out again.
  | made hid _ => exact absurd hid (Nat.ne_of_lt h.1)

theorem Gone.afterAll (h : t.Gone id) (calls : List Call) : (t.afterAll calls).Gone id := by
  induction calls generalizing t with
  | nil => exact h
  | cons call calls ih => exact ih (h.after call)

/-! ## 3. Trees at any time -/

/-- **A tree stays a tree.**  Whatever calls are made, also through scopes that are gone: parents
are live and older, and list their children exactly; from a live scope the walk up ends at one
without parent, and nothing that is looked up there fails because a scope was released; releasing a
live scope frees it and all below it, takes it from the list of its parent and changes nothing else;
and what is gone stays gone. -/
theorem afterAll_stays_tree (name : String) (calls : List Call) :
    let t := (root name).afterAll calls
    (∀ id p, t.parent? id = some p → p < id ∧ (t.scope? p).isSome) ∧
    (∀ id s, t.scope? id = some s →
      s.children.Nodup ∧ ∀ c, c ∈ s.children ↔ t.parent? c = some id) ∧
    (∀ id s, t.scope? id = some s →
      (∃ ids, t.chain id = .ok ids ∧ t.Ascends id ids) ∧
      t.get id = .ok s ∧
      (∃ text, t.path id = .ok text) ∧
      (∀ n, (∃ c, t.resolve id n = .ok c) ∨ t.resolve id n = .error (.classNotFound s.name n)) ∧
      ∃ m, t.visible id = .ok m) ∧
    (∀ id s, t.scope? id = some s →
      let t' := t.after (.change (.release id))
      t.apply (.release id) = .ok t' ∧ t'.slots.length = t.slots.length ∧
      (∀ i, t.Within id i → t'.scope? i = none) ∧
      ∀ i, ¬t.Within id i → t'.scope? i =
        (t.scope? i).map fun si => if s.parent = some i then si.withoutChild id else si) ∧
    ∀ id, t.Gone id → ∀ later, (t.afterAll later).Gone id := by
  have ht : ((root name).afterAll calls).Sound := (sound_root name).afterAll calls
  refine ⟨ht.parent, fun id s h => ⟨ht.nodup id s h, ht.children id s h⟩, fun id s h => ?_,
    fun id s h => ?_, fun id h => h.afterAll⟩
  · obtain ⟨above, hchain, hascends⟩ := ht.ascends h
    exact ⟨⟨id :: above, hchain, hascends⟩, get_of_scope? h, ht.path h, ht.resolve_cases h,
      ht.exists_visible h⟩
  · obtain ⟨names, t', hrelease, hlength, hgone, hstays⟩ := ht.exists_release h
    have happly : ((root name).afterAll calls).apply (.release id) = .ok t' := by
      simp only [ScopeTree.apply, hrelease, Except.map]
    have hafter : ((root name).afterAll calls).after (.change (.release id)) = t' := by
      simp only [ScopeTree.after, happly]
    simp only [hafter]
    exact ⟨happly, hlength, hgone, hstays⟩

end ScriptPlugins.ScopeTree
