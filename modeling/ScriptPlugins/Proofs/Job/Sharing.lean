import Mathlib.Algebra.Group.Prod
import Mathlib.Algebra.GroupWithZero.Nat
import Mathlib.Algebra.Order.Group.Multiset
import Mathlib.Data.Set.Lattice
import Mathlib.Order.CompletePartialOrder
import ScriptPlugins.Job.Basic
import ScriptPlugins.Proofs.Files.Trees
import ScriptPlugins.Proofs.Scope.Trees

/-!
# Sharing — jobs that keep to what is theirs

Jobs that run together share a world.  Each location of the files may have an owner, and so may each
class of the scope that the jobs export to; owners are names.  A job that has some of the names
changes nothing of what belongs to the others and, whatever the others do to their part between any
two of its operations, does what it would do alone.  What jobs only add to, registered directories
and uses of the scope, is counted and not owned.
-/

namespace ScriptPlugins

/-! ## 1. Changes that keep to some names -/

/-- A scope in which other classes of some names may be exported, and which may be used more. -/
structure Scope.Kept (K : Set String) (s s' : Scope) : Prop where
  name : s'.name = s.name
  parent : s'.parent = s.parent
  children : s'.children = s.children
  locked : s'.locked = s.locked
  classes : ∀ n, n ∉ K → s'.classes[n]? = s.classes[n]?

theorem Scope.Kept.refl (K : Set String) (s : Scope) : s.Kept K s :=
  ⟨rfl, rfl, rfl, rfl, fun _ _ => rfl⟩

theorem Scope.Kept.trans {K : Set String} {s s' s'' : Scope} (h : s.Kept K s')
    (h' : s'.Kept K s'') : s.Kept K s'' :=
  ⟨h'.name.trans h.name, h'.parent.trans h.parent, h'.children.trans h.children,
    h'.locked.trans h.locked, fun n hn => (h'.classes n hn).trans (h.classes n hn)⟩

theorem Scope.Kept.mono {K K' : Set String} {s s' : Scope} (h : s.Kept K s') (hk : K ⊆ K') :
    s.Kept K' s' :=
  ⟨h.name, h.parent, h.children, h.locked, fun n hn => h.classes n fun hm => hn (hk hm)⟩

/-- A tree in which one scope may export other classes of some names. -/
structure ScopeTree.Kept (scope : Nat) (K : Set String) (t t' : ScopeTree) : Prop where
  size : t'.slots.length = t.slots.length
  others : ∀ id, id ≠ scope → t'.scope? id = t.scope? id
  this : Option.Rel (Scope.Kept K) (t.scope? scope) (t'.scope? scope)

namespace ScopeTree.Kept

variable {scope : Nat} {K K' : Set String} {t t' t'' : ScopeTree}

theorem refl (scope : Nat) (K : Set String) (t : ScopeTree) : t.Kept scope K t :=
  ⟨rfl, fun _ _ => rfl, by
    cases t.scope? scope with
    | none => exact .none
    | some s => exact .some (.refl K s)⟩

theorem trans (h : t.Kept scope K t') (h' : t'.Kept scope K t'') : t.Kept scope K t'' :=
  ⟨h'.size.trans h.size, fun id hid => (h'.others id hid).trans (h.others id hid), by
    have h₁ := h.this
    have h₂ := h'.this
    revert h₁ h₂
    cases t.scope? scope <;> cases t'.scope? scope <;> cases t''.scope? scope <;>
      rintro (h₁ | _) (h₂ | _)
    · exact .none
    · exact .some (h₁.trans h₂)⟩

theorem mono (h : t.Kept scope K t') (hk : K ⊆ K') : t.Kept scope K' t' :=
  ⟨h.size, h.others, by
    have h₁ := h.this
    revert h₁
    cases t.scope? scope <;> cases t'.scope? scope <;> rintro (h₁ | _)
    · exact .none
    · exact .some (h₁.mono hk)⟩

theorem exists_scope (h : t.Kept scope K t') {s : Scope} (hs : t.scope? scope = some s) :
    ∃ s', t'.scope? scope = some s' ∧ s.Kept K s' := by
  have h₁ := h.this
  rw [hs] at h₁
  cases h' : t'.scope? scope with
  | none => rw [h'] at h₁; cases h₁
  | some s' =>
    rw [h'] at h₁
    cases h₁ with
    | some h₁ => exact ⟨s', rfl, h₁⟩

theorem set {s s' : Scope} (hs : t.scope? scope = some s) (h : s.Kept K s') :
    t.Kept scope K (t.set scope s') :=
  ⟨length_set .., fun id hid => by rw [scope?_set (lt_of_scope? hs), if_neg hid], by
    rw [hs, scope?_set (lt_of_scope? hs), if_pos rfl]
    exact .some h⟩

theorem links (h : t.Kept scope K t') (id : Nat) :
    (t'.scope? id).map Scope.links = (t.scope? id).map Scope.links := by
  by_cases hid : id = scope
  · subst hid
    have h₁ := h.this
    revert h₁
    cases t.scope? id <;> cases t'.scope? id <;> rintro (h₁ | _)
    · rfl
    · rw [Option.map_some, Option.map_some, Scope.links, Scope.links, h₁.parent, h₁.children]
  · rw [h.others id hid]

theorem sound (h : t.Kept scope K t') (ht : t.Sound) : t'.Sound := ht.of_links h.links

end ScopeTree.Kept

/-- Who owns what: the owner of each location, the scope whose classes own themselves, and the names
that classes can have. -/
structure Owning where
  owner : Location → Option String
  scope : Nat
  classNames : Set String

namespace Owning

variable (o : Owning)

/-- What belongs to some names. -/
def region (K : Set String) : Set Location := {l | ∃ n ∈ K, o.owner l = some n}

/-- A change that keeps to what belongs to some names. -/
structure Keeps (K : Set String) (w w' : World) : Prop where
  files : FileTree.SameOutside (o.region K) w.files w'.files
  scopes : w.scopes.Kept o.scope (K ∩ o.classNames) w'.scopes
  registered : w.registered <+: w'.registered
  clock : w.now.valid = true → w'.now.valid = true

variable {o} {K K' : Set String} {w w' w'' : World}

theorem region_mono (h : K ⊆ K') : o.region K ⊆ o.region K' := fun _ ⟨n, hn, ho⟩ => ⟨n, h hn, ho⟩

theorem mem_region {l : Location} {n : String} (h : o.owner l = some n) :
    l ∈ o.region K ↔ n ∈ K := by
  constructor
  · rintro ⟨m, hm, ho⟩
    rw [h, Option.some.injEq] at ho
    exact ho ▸ hm
  · exact fun hn => ⟨n, hn, h⟩

theorem Keeps.refl (o : Owning) (K : Set String) (w : World) : o.Keeps K w w :=
  ⟨.refl _ _, .refl _ _ _, List.prefix_rfl, id⟩

theorem Keeps.trans (h : o.Keeps K w w') (h' : o.Keeps K w' w'') : o.Keeps K w w'' :=
  ⟨h.files.trans h'.files, h.scopes.trans h'.scopes, h.registered.trans h'.registered,
    fun hv => h'.clock (h.clock hv)⟩

theorem Keeps.mono (h : o.Keeps K w w') (hk : K ⊆ K') : o.Keeps K' w w' :=
  ⟨h.files.mono (region_mono hk), h.scopes.mono (Set.inter_subset_inter_left _ hk), h.registered,
    h.clock⟩

/-- What belongs to a name stays as it is while others change their part. -/
theorem Keeps.entry? (h : o.Keeps Kᶜ w w') {l : Location} {n : String} (ho : o.owner l = some n)
    (hn : n ∈ K) : w'.files.entry? l = w.files.entry? l :=
  h.files.entries l fun hm => (mem_region ho).mp hm hn

/-- What a job knows of the scopes, whatever the others export. -/
structure Frame (o : Owning) (K : Set String) where
  holds : ScopeTree → Prop
  stays : ∀ t t', holds t → t.Kept o.scope Kᶜ t' → holds t'

/-- Nothing that others do to their part can undo this. -/
def Stable (o : Owning) (K : Set String) (P : World → Prop) : Prop :=
  ∀ w w', P w → o.Keeps Kᶜ w w' → P w'

/-! ## 2. What is only added to -/

/-- Directories registered for packaging, directories exported by the scope, and its uses. -/
abbrev Tally := Multiset Path × Multiset Path × ℕ

/-- What has been added so far. -/
def tally (w : World) : Tally :=
  (w.registered, ((w.scopes.scope? o.scope).elim [] Scope.directories : List Path),
    (w.scopes.scope? o.scope).elim 0 Scope.reuses)

/-! ## 3. Jobs among others -/

variable {α β : Type}

variable (o K) in
/-- A job that has some names ends well: from a world on, whatever the owners of the other names do
in between, it keeps to its part, and its answer, what it has added in the end and the world then
are as told. -/
def Ends (Q : α → Tally → World → Prop) : Job α → Tally → World → Prop
  | .done a, e, w => ∀ w', o.Keeps Kᶜ w w' → Q a e w'
  | .next op rest, e, w => ∀ w', o.Keeps Kᶜ w w' →
      o.Keeps K w' (op.perform w').2 ∧
        ∃ d : Tally, o.tally (op.perform w').2 = o.tally w' + d ∧
          Ends Q (rest (op.perform w').1) (e + d) (op.perform w').2

variable {Q Q' : α → Tally → World → Prop} {j : Job α} {e : Tally}

/-- Others may act before the job goes on. -/
theorem Ends.stays (h : o.Ends K Q j e w) (hw : o.Keeps Kᶜ w w') : o.Ends K Q j e w' := by
  cases j with
  | done a => exact fun w'' h' => h w'' (hw.trans h')
  | next op rest => exact fun w'' h' => h w'' (hw.trans h')

theorem Ends.imp (h : o.Ends K Q j e w) (hq : ∀ a e w, Q a e w → Q' a e w) : o.Ends K Q' j e w := by
  induction j generalizing e w with
  | done a => exact fun w' hw => hq _ _ _ (h w' hw)
  | next op rest ih =>
    intro w' hw
    obtain ⟨hk, d, hd, hr⟩ := h w' hw
    exact ⟨hk, d, hd, ih _ hr⟩

/-- The answer of a job holds, whatever the others do until the next one begins. -/
theorem Ends.bind {f : α → Job β} {R : β → Tally → World → Prop} (h : o.Ends K Q j e w)
    (hf : ∀ a e w, (∀ w', o.Keeps Kᶜ w w' → Q a e w') → o.Ends K R (f a) e w) :
    o.Ends K R (j >>= f) e w := by
  induction j generalizing e w with
  | done a => exact hf a e w h
  | next op rest ih =>
    intro w' hw
    obtain ⟨hk, d, hd, hr⟩ := h w' hw
    exact ⟨hk, d, hd, ih _ hr⟩

theorem Ends.map {f : α → β} {R : β → Tally → World → Prop} (h : o.Ends K Q j e w)
    (hf : ∀ a e w, Q a e w → R (f a) e w) : o.Ends K R (f <$> j) e w :=
  h.bind fun a e _ ha w' hw => hf a e w' (ha w' hw)

/-- What is kept under other names is still so when a job has ended. -/
theorem Ends.frame {K₁ K₂ : Set String} {P : World → Prop} (h : o.Ends K₁ Q j e w)
    (hP : o.Stable K₂ P) (hdisjoint : Disjoint K₁ K₂) (hp : P w) :
    o.Ends (K₁ ∪ K₂) (fun a e w => Q a e w ∧ P w) j e w := by
  have hrely₁ : (K₁ ∪ K₂)ᶜ ⊆ K₁ᶜ := Set.compl_subset_compl.mpr Set.subset_union_left
  have hrely₂ : (K₁ ∪ K₂)ᶜ ⊆ K₂ᶜ := Set.compl_subset_compl.mpr Set.subset_union_right
  induction j generalizing e w with
  | done a => exact fun w' hw => ⟨h w' (hw.mono hrely₁), hP _ _ hp (hw.mono hrely₂)⟩
  | next op rest ih =>
    intro w' hw
    obtain ⟨hk, d, hd, hr⟩ := h w' (hw.mono hrely₁)
    refine ⟨hk.mono Set.subset_union_left, d, hd, ih _ hr ?_⟩
    exact hP _ _ (hP _ _ hp (hw.mono hrely₂)) (hk.mono hdisjoint.subset_compl_right)

/-- What a job among others does, it does alone. -/
theorem Ends.run (h : o.Ends K Q j e w) :
    o.Keeps K w (j.run w).2 ∧
      ∃ d : Tally, o.tally (j.run w).2 = o.tally w + d ∧ Q (j.run w).1 (e + d) (j.run w).2 := by
  induction j generalizing e w with
  | done a => exact ⟨.refl .., 0, (add_zero _).symm, by rw [add_zero]; exact h w (.refl ..)⟩
  | next op rest ih =>
    obtain ⟨hk, d, hd, hr⟩ := h w (.refl ..)
    obtain ⟨hk', d', hd', hq⟩ := ih _ hr
    refine ⟨hk.trans hk', d + d', ?_, ?_⟩
    · exact hd'.trans (by rw [hd, add_assoc])
    · rw [← add_assoc]
      exact hq

end Owning

end ScriptPlugins
