import ScriptPlugins.Batch.Schedule
import ScriptPlugins.Proofs.Cache.Phases

/-!
# Places — the scripts of a batch, and the names that each has to itself

Every script has one place in its batch.  Two scripts that are accepted share no name, so the files
and classes of one are never those of the other.
-/

namespace ScriptPlugins

/-! ## 1. Names -/

/-- The name of the file of the adapter. -/
def Script.adapterFile (s : Script) : String := s.adapterName ++ ".toml"

/-- Who owns a file of the directory for adapters.  It begins as no name of an entry does. -/
def adapterOwner (file : String) : String := "/" ++ file

def Script.classNames (s : Script) : Set String := {n | ∃ phase, n = s.classNameOf phase}

/-- What a script has to itself: the names of its classes, and the file of its adapter. -/
def Script.owns (s : Script) : Set String := s.classNames ∪ {adapterOwner s.adapterFile}

theorem Script.classNameOf_mem (s : Script) (phase : Phase) : s.classNameOf phase ∈ s.classNames :=
  ⟨phase, rfl⟩

/-- No class is named like the owner of an adapter. -/
theorem Script.classNameOf_ne_adapterOwner (s : Script) (phase : Phase) (file : String) :
    s.classNameOf phase ≠ adapterOwner file := by
  intro h
  have htext := congrArg (fun t : String => t.toList.head?) h
  cases phase <;>
    · simp only [classNameOf, preambleClassName, className, adapterOwner,
        String.toList_append] at htext
      revert htext
      simp

theorem Script.disjoint_adapterOwner (s : Script) (file : String) :
    Disjoint s.classNames {adapterOwner file} := by
  rw [Set.disjoint_singleton_right]
  rintro ⟨phase, h⟩
  exact s.classNameOf_ne_adapterOwner phase file h.symm

theorem Script.mem_names (s : Script) (phase : Phase) : s.classNameOf phase ∈ s.names := by
  cases phase <;> simp [classNameOf, names]

theorem adapterOwner_inj {s s' : Script}
    (h : adapterOwner s.adapterFile = adapterOwner s'.adapterFile) :
    s.adapterName = s'.adapterName := by
  have hfile := String.append_right_inj _ |>.mp h
  exact String.append_left_inj _ |>.mp hfile

/-- Scripts without a name in common own nothing in common. -/
theorem Script.disjoint_owns {s s' : Script} (h : ∀ n ∈ s.names, n ∉ s'.names) :
    Disjoint s.owns s'.owns := by
  rw [Set.disjoint_left]
  rintro n (⟨phase, rfl⟩ | rfl) (⟨phase', h'⟩ | h')
  · exact h _ (s.mem_names phase) (h' ▸ s'.mem_names phase')
  · exact s.classNameOf_ne_adapterOwner phase _ h'
  · exact s'.classNameOf_ne_adapterOwner phase' _ h'.symm
  · exact h s.adapterName (by simp [names]) (by rw [adapterOwner_inj h']; simp [names])

/-! ## 2. Accepted scripts -/

namespace Reviewed

theorem accepted_cons_refused (s : Script) (e : BuildError) (rs : Reviewed) (k : Nat) :
    accepted ((s, some e) :: rs) k = accepted rs (k + 1) := rfl

theorem accepted_cons (s : Script) (rs : Reviewed) (k : Nat) :
    accepted ((s, none) :: rs) k = (k, s) :: accepted rs (k + 1) := rfl

end Reviewed

theorem Owners.lookup_add {os : Owners} {s : Script} {n : String} (h : (os.add s).lookup n = none) :
    n ∉ s.names ∧ os.lookup n = none := by
  rw [add, List.lookup_append, Option.or_eq_none_iff, List.lookup_eq_none_iff] at h
  refine ⟨fun hn => ?_, h.2⟩
  have hne := h.1 (n, s.id) (List.mem_map_of_mem hn)
  simp at hne

theorem Owners.lookup_of_refusal? {os : Owners} {s : Script} (h : os.refusal? s = none) :
    ∀ n ∈ s.names, os.lookup n = none := by
  intro n hn
  rw [refusal?, List.findSome?_eq_none_iff] at h
  exact Option.map_eq_none_iff.mp (h n hn)

/-- The scripts of a review in their order. -/
theorem Owners.map_fst_review (os : Owners) (ss : List Script) :
    (os.review ss).map Prod.fst = ss := by
  induction ss generalizing os with
  | nil => rfl
  | cons s ss ih =>
    rw [review]
    split <;> rw [List.map_cons, ih]

/-- **Accepted scripts have no name in common**, nor one that had an owner before. -/
theorem Owners.accepted_review (os : Owners) (ss : List Script) (k : Nat) :
    (Reviewed.accepted (os.review ss) k).Pairwise
        (fun a b => a.1 ≠ b.1 ∧ ∀ n ∈ a.2.names, n ∉ b.2.names) ∧
      ∀ a ∈ Reviewed.accepted (os.review ss) k,
        k ≤ a.1 ∧ a.2 ∈ ss ∧ ∀ n ∈ a.2.names, os.lookup n = none := by
  induction ss generalizing os k with
  | nil => exact ⟨.nil, fun a ha => nomatch ha⟩
  | cons s ss ih =>
    rw [review]
    split
    next e he =>
      obtain ⟨hpair, hall⟩ := ih os (k + 1)
      rw [Reviewed.accepted_cons_refused]
      refine ⟨hpair, fun a ha => ?_⟩
      obtain ⟨hk, hmem, hfree⟩ := hall a ha
      exact ⟨by omega, List.mem_cons_of_mem _ hmem, hfree⟩
    next he =>
      obtain ⟨hpair, hall⟩ := ih (os.add s) (k + 1)
      rw [Reviewed.accepted_cons]
      refine ⟨List.pairwise_cons.mpr ⟨fun a ha => ?_, hpair⟩, fun a ha => ?_⟩
      · obtain ⟨hk, -, hfree⟩ := hall a ha
        exact ⟨by simp only; omega, fun n hn hn' => (lookup_add (hfree n hn')).1 hn⟩
      · rcases List.mem_cons.mp ha with rfl | ha
        · exact ⟨le_rfl, List.mem_cons_self, lookup_of_refusal? he⟩
        · obtain ⟨hk, hmem, hfree⟩ := hall a ha
          exact ⟨by omega, List.mem_cons_of_mem _ hmem, fun n hn => (lookup_add (hfree n hn)).2⟩

/-! ## 3. Results -/

/-- Values with their places, from some number on. -/
def numbered {α : Type} (k : Nat) (as : List α) : List (Nat × α) := (as.zipIdx k).map Prod.swap

theorem numbered_cons {α : Type} (k : Nat) (a : α) (as : List α) :
    numbered k (a :: as) = (k, a) :: numbered (k + 1) as := rfl

theorem le_of_mem_numbered {α : Type} {k : Nat} {as : List α} {r : Nat × α}
    (h : r ∈ numbered k as) : k ≤ r.1 := by
  obtain ⟨⟨a, i⟩, hmem, rfl⟩ := List.mem_map.mp h
  exact List.le_snd_of_mem_zipIdx hmem

theorem pairwise_numbered {α : Type} (k : Nat) (as : List α) :
    (numbered k as).Pairwise fun a b => a.1 < b.1 := by
  induction as generalizing k with
  | nil => exact .nil
  | cons a as ih =>
    rw [numbered_cons]
    exact List.pairwise_cons.mpr ⟨fun r hr => le_of_mem_numbered hr, ih (k + 1)⟩

theorem map_snd_numbered {α : Type} (k : Nat) (as : List α) :
    (numbered k as).map Prod.snd = as := by
  rw [numbered, List.map_map]
  exact List.zipIdx_map_fst k as

/-- A place has one value. -/
theorem numbered_inj {α : Type} {k : Nat} {as : List α} {a b : Nat × α} (ha : a ∈ numbered k as)
    (hb : b ∈ numbered k as) (h : a.1 = b.1) : a = b := by
  obtain ⟨⟨x, i⟩, hx, rfl⟩ := List.mem_map.mp ha
  obtain ⟨⟨y, j⟩, hy, rfl⟩ := List.mem_map.mp hb
  obtain rfl : i = j := h
  have hxy := (List.mk_mem_zipIdx_iff_le_and_getElem?_sub.mp hx).2.symm.trans
    (List.mk_mem_zipIdx_iff_le_and_getElem?_sub.mp hy).2
  rw [Option.some.inj hxy]

/-- Numbered values are brought into their order, in whatever order they come. -/
theorem mergeSort_numbered {α : Type} {k : Nat} {as : List α} {rs : List (Nat × α)}
    (h : rs.Perm (numbered k as)) :
    rs.mergeSort (fun a b => a.1 ≤ b.1) = numbered k as := by
  have hpair := pairwise_numbered k as
  refine List.Perm.eq_of_pairwise (fun a b ha hb hab hba => ?_)
    (List.pairwise_mergeSort (by simp; omega) (by simp; omega) rs)
    (hpair.imp fun h => by simp; omega) ((List.mergeSort_perm rs _).trans h)
  have ha' := h.subset (List.mem_mergeSort.mp ha)
  rw [decide_eq_true_eq] at hab hba
  exact numbered_inj ha' hb (Nat.le_antisymm hab hba)

theorem reportsOf_perm {scripts : List Script} {results : List (Nat × ScriptResult)}
    {as : List ScriptResult} (h : results.Perm (numbered 0 as)) :
    reportsOf scripts results = scripts.zipWith (fun s r => ⟨s.id, r⟩) as := by
  have hsplit : scripts.zipWith (fun s (r : Nat × ScriptResult) => (⟨s.id, r.2⟩ : ScriptReport))
      (numbered 0 as) = scripts.zipWith (fun s r => ⟨s.id, r⟩) ((numbered 0 as).map Prod.snd) :=
    (List.zipWith_map_right ..).symm
  rw [reportsOf, mergeSort_numbered h, hsplit, map_snd_numbered]

namespace Reviewed

/-- What becomes of the scripts of a batch, from what becomes of those that are accepted. -/
def results (F : Nat → Script → ScriptResult) (rs : Reviewed) (k : Nat) : List ScriptResult :=
  (rs.zipIdx k).map fun ((s, e), i) => e.elim (F i s) .error

theorem perm_results (F : Nat → Script → ScriptResult) (rs : Reviewed) (k : Nat) :
    (refusals rs k ++ (accepted rs k).map fun a => (a.1, F a.1 a.2)).Perm
      (numbered k (results F rs k)) := by
  induction rs generalizing k with
  | nil => exact .nil
  | cons a rs ih =>
    obtain ⟨s, e⟩ := a
    cases e with
    | some e => exact (ih (k + 1)).cons _
    | none => exact List.perm_middle.trans ((ih (k + 1)).cons _)

end Reviewed

end ScriptPlugins
