import Mathlib.Data.List.Nodup
import ScriptPlugins.Proofs.Batch.Shelving
import ScriptPlugins.Proofs.Script.Identifiers

/-!
# Ownership — which scripts of a batch are accepted, and what they keep apart

A script is refused exactly if it shares a name with a script that was accepted before it.  The
refusal says the first such name and who owns it.  What is refused owns nothing, so it refuses
nobody.  All names of all accepted scripts differ, and so do the places in the build that these
names are for.
-/

namespace ScriptPlugins

open FileTree

/-! ## 1. Reviews -/

namespace Owners

variable {os : Owners} {s : Script} {ss : List Script}

/-- The owners when some scripts have been reviewed. -/
def after (os : Owners) : List Script → Owners
  | [] => os
  | s :: ss =>
    match os.refusal? s with
    | some _ => os.after ss
    | none => (os.add s).after ss

theorem review_append (os : Owners) (ss ss' : List Script) :
    os.review (ss ++ ss') = os.review ss ++ (os.after ss).review ss' := by
  induction ss generalizing os with
  | nil => rfl
  | cons s ss ih =>
    rw [List.cons_append, review, review, after]
    cases os.refusal? s with
    | some e => exact congrArg _ (ih os)
    | none => exact congrArg _ (ih (os.add s))

theorem review_cons (os : Owners) (s : Script) (ss : List Script) :
    os.review (s :: ss) = (s, os.refusal? s) :: (os.after [s]).review ss := by
  rw [review, after]
  cases os.refusal? s <;> rfl

/-- What becomes of a script follows from the owners when it is its turn. -/
theorem refusal_of_review {before rest : Reviewed} {refusal : Option BuildError}
    (h : os.review ss = before ++ (s, refusal) :: rest) :
    os.review (before.map Prod.fst) = before ∧
      (os.after (before.map Prod.fst)).refusal? s = refusal := by
  -- A review keeps the order, so what comes before is a review of its own, with the same owners.
  have hss : ss = before.map Prod.fst ++ s :: rest.map Prod.fst := by
    rw [← map_fst_review os ss, h, List.map_append, List.map_cons]
  rw [hss, review_append, review_cons] at h
  have hlength : (os.review (before.map Prod.fst)).length = before.length := by
    rw [← List.length_map (f := Prod.fst), map_fst_review, List.length_map]
  obtain ⟨hbefore, hs⟩ := List.append_inj h hlength
  exact ⟨hbefore, congrArg Prod.snd (List.cons.inj hs).1⟩

theorem mem_add {n id : String} : (n, id) ∈ os.add s ↔ (n, id) ∈ os ∨ n ∈ s.names ∧ s.id = id := by
  rw [add, List.mem_append, or_comm]
  simp

/-- Accepted scripts own their names, and nobody else owns anything. -/
theorem mem_after {n id : String} : (n, id) ∈ os.after ss ↔
    (n, id) ∈ os ∨ ∃ s, (s, none) ∈ os.review ss ∧ n ∈ s.names ∧ s.id = id := by
  induction ss generalizing os with
  | nil => simp [after, review]
  | cons s ss ih =>
    rw [after, review]
    cases os.refusal? s with
    | some e =>
      simp only
      rw [ih]
      simp
    | none =>
      simp only
      rw [ih, mem_add, or_assoc]
      simp

theorem mem_accepted_iff (rs : Reviewed) (k : Nat) :
    s ∈ (Reviewed.accepted rs k).map Prod.snd ↔ (s, none) ∈ rs := by
  induction rs generalizing k with
  | nil => simp [Reviewed.accepted]
  | cons r rs ih =>
    obtain ⟨s', e⟩ := r
    cases e with
    | some e =>
      rw [Reviewed.accepted_cons_refused, ih]
      simp
    | none =>
      rw [Reviewed.accepted_cons, List.map_cons, List.mem_cons, ih]
      simp

/-- Accepted scripts have no name in common. -/
theorem pairwise_accepted (ss : List Script) :
    ((Reviewed.accepted (review [] ss) 0).map Prod.snd).Pairwise
      fun s s' => ∀ n ∈ s.names, n ∉ s'.names := by
  rw [List.pairwise_map]
  exact (accepted_review [] ss 0).1.imp And.right

/-- A name has one owner at most. -/
theorem accepted_unique {s' : Script} {n : String} (h : (s, none) ∈ review [] ss)
    (h' : (s', none) ∈ review [] ss) (hn : n ∈ s.names) (hn' : n ∈ s'.names) : s = s' := by
  by_contra hne
  have : Std.Symm fun s s' : Script => ∀ n ∈ s.names, n ∉ s'.names :=
    ⟨fun _ _ h n hn hn' => h n hn' hn⟩
  exact (pairwise_accepted ss).forall ((mem_accepted_iff _ 0).mpr h)
    ((mem_accepted_iff _ 0).mpr h') hne n hn hn'

theorem lookup_after_eq_some {n id : String} :
    (after [] ss).lookup n = some id ↔ ∃ s, (s, none) ∈ review [] ss ∧ n ∈ s.names ∧ s.id = id := by
  have hmem {id : String} (h : (after [] ss).lookup n = some id) :
      ∃ s, (s, none) ∈ review [] ss ∧ n ∈ s.names ∧ s.id = id := by
    obtain ⟨l₁, l₂, hl, -⟩ := List.lookup_eq_some_iff.mp h
    have hin : (n, id) ∈ after [] ss := by simp [hl]
    exact (mem_after.mp hin).resolve_left List.not_mem_nil
  refine ⟨hmem, fun ⟨s, hs, hn, hid⟩ => ?_⟩
  -- The lookup finds some owner of the name, and a name has one owner only.
  have hin : (n, id) ∈ after [] ss := mem_after.mpr (.inr ⟨s, hs, hn, hid⟩)
  cases hlookup : (after [] ss).lookup n with
  | none => simpa using List.lookup_eq_none_iff.mp hlookup _ hin
  | some id' =>
    obtain ⟨s', hs', hn', rfl⟩ := hmem hlookup
    rw [← hid, accepted_unique hs hs' hn hn']

theorem lookup_after_eq_none {n : String} :
    (after [] ss).lookup n = none ↔ ∀ t, (t, none) ∈ review [] ss → n ∉ t.names := by
  rw [← Option.not_isSome_iff_eq_none, Option.isSome_iff_exists]
  simp only [lookup_after_eq_some]
  constructor
  · intro h t ht hn
    exact h ⟨t.id, t, ht, hn, rfl⟩
  · rintro h ⟨_, t, ht, hn, -⟩
    exact h t ht hn

theorem refusal?_eq_none_iff : os.refusal? s = none ↔ ∀ n ∈ s.names, os.lookup n = none := by
  refine ⟨lookup_of_refusal?, fun h => ?_⟩
  rw [refusal?, List.findSome?_eq_none_iff]
  exact fun n hn => by rw [h n hn, Option.map_none]

/-- A refusal says the first name that has an owner, and the owner. -/
theorem refusal?_eq_some_iff {e : BuildError} : os.refusal? s = some e ↔
    ∃ free name rest owner, s.names = free ++ name :: rest ∧ (∀ n ∈ free, os.lookup n = none) ∧
      os.lookup name = some owner ∧ e = .nameTaken name s.id owner := by
  rw [refusal?, List.findSome?_eq_some_iff]
  constructor
  · rintro ⟨free, name, rest, hnames, hname, hfree⟩
    obtain ⟨owner, howner, rfl⟩ := Option.map_eq_some_iff.mp hname
    have hfree' : ∀ n ∈ free, os.lookup n = none :=
      fun n hn => Option.map_eq_none_iff.mp (hfree n hn)
    exact ⟨free, name, rest, owner, hnames, hfree', howner, rfl⟩
  · rintro ⟨free, name, rest, owner, hnames, hfree, howner, rfl⟩
    exact ⟨free, name, rest, hnames, by rw [howner, Option.map_some],
      fun n hn => by rw [hfree n hn, Option.map_none]⟩

/-- All names of accepted scripts differ, those of one script included. -/
theorem nodup_names_accepted (ss : List Script) :
    (((Reviewed.accepted (review [] ss) 0).map Prod.snd).flatMap Script.names).Nodup :=
  List.nodup_flatMap.mpr ⟨fun s _ => s.nodup_names,
    (pairwise_accepted ss).imp fun h n hn hn' => h n hn hn'⟩

/-- Scripts of one id have the same names, so one of them at most is accepted. -/
theorem nodup_ids_accepted (ss : List Script) :
    (((Reviewed.accepted (review [] ss) 0).map Prod.snd).map Script.id).Nodup := by
  rw [List.nodup_iff_pairwise_ne, List.pairwise_map]
  refine (pairwise_accepted ss).imp fun {s s'} h hid => ?_
  have hname : s.className = s'.className := by rw [Script.className, Script.className, hid]
  exact h s.className (by simp [Script.names]) (by simp [Script.names, hname])

end Owners

/-! ## 2. Footprints -/

/-- The directories of a build that hold something for each name. -/
inductive Store where
  | classes
  | metadata
  | adapters
  deriving DecidableEq

/-- What something is called in a store that is there for a name. -/
def Store.file : Store → String → String
  | .classes, name => name
  | .metadata, name => name
  | .adapters, name => name ++ ".toml"

theorem Store.file_inj {r : Store} {n n' : String} (h : r.file n = r.file n') : n = n' := by
  cases r with
  | classes => exact h
  | metadata => exact h
  | adapters => exact String.append_left_inj _ |>.mp h

/-- What a script has in the stores. -/
def Script.stored (s : Script) : List (Store × String) :=
  [(.classes, s.className), (.metadata, s.className), (.classes, s.preambleClassName),
    (.metadata, s.preambleClassName), (.adapters, s.adapterFile)]

/-- Whatever a script has in a store is there for one of its names. -/
theorem Script.exists_of_mem_stored {s : Script} {e : Store × String} (h : e ∈ s.stored) :
    ∃ n ∈ s.names, e.2 = e.1.file n := by
  simp only [stored, List.mem_cons, List.not_mem_nil, or_false] at h
  rcases h with rfl | rfl | rfl | rfl | rfl
  · exact ⟨s.className, by simp [names], rfl⟩
  · exact ⟨s.className, by simp [names], rfl⟩
  · exact ⟨s.preambleClassName, by simp [names], rfl⟩
  · exact ⟨s.preambleClassName, by simp [names], rfl⟩
  · exact ⟨s.adapterName, by simp [names], rfl⟩

theorem Script.isPart_of_mem_stored {s : Script} {e : Store × String} (h : e ∈ s.stored) :
    IsPart e.2 := by
  simp only [stored, List.mem_cons, List.not_mem_nil, or_false] at h
  rcases h with rfl | rfl | rfl | rfl | rfl
  · exact s.isIdentifier_className.isPart
  · exact s.isIdentifier_className.isPart
  · exact s.isIdentifier_preambleClassName.isPart
  · exact s.isIdentifier_preambleClassName.isPart
  · exact isPart_adapterFile s

theorem Script.nodup_stored (s : Script) : s.stored.Nodup := by
  simp [stored, className_ne_preambleClassName]

/-- All that accepted scripts have in the stores differs. -/
theorem Owners.nodup_stored_accepted (ss : List Script) :
    (((Reviewed.accepted (review [] ss) 0).map Prod.snd).flatMap Script.stored).Nodup := by
  refine List.nodup_flatMap.mpr ⟨fun s _ => s.nodup_stored, (pairwise_accepted ss).imp ?_⟩
  intro s s' h e he he'
  obtain ⟨n, hn, hfile⟩ := Script.exists_of_mem_stored he
  obtain ⟨n', hn', hfile'⟩ := Script.exists_of_mem_stored he'
  exact h n hn (Store.file_inj (hfile.symm.trans hfile') ▸ hn')

namespace BuildLayout

/-- The names that lead from the root of a build to a store. -/
def storeNames : Store → List String
  | .classes => classesNames
  | .metadata => metadataNames
  | .adapters => adaptersNames

def store (b : BuildLayout) : Store → Path
  | .classes => b.cachedClasses
  | .metadata => b.cachedMetadata
  | .adapters => b.adapters

theorem store_eq (b : BuildLayout) (r : Store) : b.store r = b.root.down (storeNames r) := by
  cases r <;> rfl

theorem isName_storeNames (r : Store) : ∀ s ∈ storeNames r, IsName s := by
  cases r <;> decide

theorem steps_store (b : BuildLayout) (r : Store) :
    (b.store r).steps = b.root.steps ++ (storeNames r).map .name := by
  rw [store_eq]
  exact Path.steps_down (fun s hs => (isName_storeNames r s hs).part) b.root

/-- What lies in a store lies in nothing else that lies in a store. -/
theorem prefix_store_iff (b : BuildLayout) {e e' : Store × String} (h : IsPart e.2)
    (h' : IsPart e'.2) :
    ((b.store e.1).join e.2).steps <+: ((b.store e'.1).join e'.2).steps ↔ e = e' := by
  obtain ⟨r, n⟩ := e
  obtain ⟨r', n'⟩ := e'
  rw [Path.steps_join_part h, Path.steps_join_part h', steps_store, steps_store, List.append_assoc,
    List.append_assoc, List.prefix_append_right_inj]
  cases r <;> cases r' <;> simp [storeNames, classesNames, metadataNames, adaptersNames]

/-- The directories in the cache and the file of the adapter that a script has in a build. -/
def footprint (b : BuildLayout) (s : Script) : List Path :=
  [b.cache.classesDir s.className, b.cache.metadataDir s.className,
    b.cache.classesDir s.preambleClassName, b.cache.metadataDir s.preambleClassName,
    b.adapters.join s.adapterFile]

theorem footprint_eq (b : BuildLayout) (s : Script) :
    b.footprint s = s.stored.map fun e => (b.store e.1).join e.2 := rfl

/-- What a script has lies directly in a store. -/
theorem steps_of_mem_footprint {b : BuildLayout} {s : Script} {p : Path} (h : p ∈ b.footprint s) :
    ∃ r n, IsPart n ∧ p.steps = (b.store r).steps ++ [.name n] := by
  rw [footprint_eq] at h
  obtain ⟨e, he, rfl⟩ := List.mem_map.mp h
  have hpart := Script.isPart_of_mem_stored he
  exact ⟨e.1, e.2, hpart, Path.steps_join_part hpart _⟩

/-- Nothing that accepted scripts have lies in, or is, anything else that they have. -/
theorem pairwise_footprints (b : BuildLayout) (ss : List Script) :
    (((Reviewed.accepted (Owners.review [] ss) 0).map Prod.snd).flatMap b.footprint).Pairwise
      fun p q => ¬p.steps <+: q.steps ∧ ¬q.steps <+: p.steps := by
  have hmap (scripts : List Script) : scripts.flatMap b.footprint =
      (scripts.flatMap Script.stored).map fun e => (b.store e.1).join e.2 := by
    rw [List.map_flatMap]
    rfl
  have hpart {scripts : List Script} {e : Store × String} (he : e ∈ scripts.flatMap Script.stored) :
      IsPart e.2 := by
    obtain ⟨s, -, hs⟩ := List.mem_flatMap.mp he
    exact Script.isPart_of_mem_stored hs
  -- One of two places lies in the other only if they are the same, so it is enough that they
  -- differ.
  rw [hmap, List.pairwise_map]
  refine (List.nodup_iff_pairwise_ne.mp (Owners.nodup_stored_accepted ss)).imp_of_mem ?_
  intro e e' he he' hne
  rw [b.prefix_store_iff (hpart he) (hpart he'), b.prefix_store_iff (hpart he') (hpart he)]
  exact ⟨hne, hne.symm⟩

end BuildLayout

/-! ## 3. The whole review -/

/-- **A review finds exactly the scripts that share a name with an accepted one.**  It reviews the
scripts in their order.  One is accepted exactly if it has no name in common with one that was
accepted before; a refusal says the first of its names that is owned, and the id of the accepted
script whose name it is.  The names of all accepted scripts differ, and so do their ids.  Whatever
its id is, the names of a script are identifiers, so what it has in the cache and among the adapters
lies directly there; and nothing that accepted scripts have there lies in, or is, anything else that
they have. -/
theorem Owners.review_exact (b : BuildLayout) (ss : List Script) :
    let rs := Owners.review [] ss
    let accepted := (Reviewed.accepted rs 0).map Prod.snd
    rs.map Prod.fst = ss ∧
    (∀ before s refusal after, rs = before ++ (s, refusal) :: after →
      (refusal = none ↔ ∀ t, (t, none) ∈ before → ∀ n ∈ s.names, n ∉ t.names) ∧
      ∀ e, refusal = some e → ∃ free name rest owner, s.names = free ++ name :: rest ∧
        (∀ n ∈ free, ∀ t, (t, none) ∈ before → n ∉ t.names) ∧
        (owner, none) ∈ before ∧ name ∈ owner.names ∧ e = .nameTaken name s.id owner.id) ∧
    (∀ s, s ∈ accepted ↔ (s, none) ∈ rs) ∧
    (accepted.flatMap Script.names).Nodup ∧ (accepted.map Script.id).Nodup ∧
    (∀ s : Script, ∀ n ∈ s.names, IsIdentifier n) ∧
    (∀ (s : Script), ∀ p ∈ b.footprint s, ∃ r n, IsPart n ∧
      p.steps = (b.store r).steps ++ [.name n]) ∧
    (accepted.flatMap b.footprint).Pairwise fun p q => ¬p.steps <+: q.steps ∧
      ¬q.steps <+: p.steps := by
  intro rs accepted
  refine ⟨map_fst_review [] ss, fun before s refusal after hrs => ?_,
    fun s => mem_accepted_iff rs 0,
    nodup_names_accepted ss, nodup_ids_accepted ss, fun s => s.isIdentifier_of_mem_names,
    fun s p hp => BuildLayout.steps_of_mem_footprint hp, b.pairwise_footprints ss⟩
  obtain ⟨hbefore, rfl⟩ := refusal_of_review hrs
  -- A name is free exactly if no script accepted before has it.
  have hfree {n : String} : (Owners.after [] (before.map Prod.fst)).lookup n = none ↔
      ∀ t, (t, none) ∈ before → n ∉ t.names := by
    rw [lookup_after_eq_none, hbefore]
  constructor
  · simp only [refusal?_eq_none_iff, hfree]
    exact ⟨fun h t ht n hn => h n hn t ht, fun h n hn t ht => h t ht n hn⟩
  · intro e he
    obtain ⟨free, name, rest, owner, hnames, hbeforeName, howner, rfl⟩ := refusal?_eq_some_iff.mp he
    obtain ⟨t, ht, hn, rfl⟩ := lookup_after_eq_some.mp howner
    rw [hbefore] at ht
    exact ⟨free, name, rest, t, hnames, fun n hn => hfree.mp (hbeforeName n hn), ht, hn, rfl⟩

end ScriptPlugins
