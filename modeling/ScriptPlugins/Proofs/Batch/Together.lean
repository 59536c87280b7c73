import Mathlib.Data.List.Pairwise
import ScriptPlugins.Proofs.Batch.Scripts
import ScriptPlugins.Proofs.Cache.Stages
import ScriptPlugins.Proofs.Cache.Timeless
import ScriptPlugins.Proofs.Job.Pools

/-!
# Together — the scripts of a batch in a pool

Accepted scripts have their names to themselves, so each leaves what it would leave alone.  From
this follows all that is there when the last of them has ended, but for the times in new entries.
-/

namespace ScriptPlugins

open FileTree Owning BuildLayout

/-! ## 1. Accepted scripts -/

/-- Places and scripts without a name in common. -/
def Apart (a b : Nat × Script) : Prop := a.1 ≠ b.1 ∧ ∀ n ∈ a.2.names, n ∉ b.2.names

instance : Std.Symm Apart := ⟨fun _ _ h => ⟨h.1.symm, fun n hn hn' => h.2 n hn' hn⟩⟩

/-- Scripts with their places, no two of which have a name in common. -/
abbrev AllApart (acc : List (Nat × Script)) : Prop := acc.Pairwise Apart

variable {acc : List (Nat × Script)} {a a' : Nat × Script}

theorem AllApart.eq_of_place (h : AllApart acc) (ha : a ∈ acc) (ha' : a' ∈ acc) (hi : a.1 = a'.1) :
    a = a' := by
  by_contra hne
  exact (h.forall ha ha' hne).1 hi

theorem AllApart.disjoint (h : AllApart acc) (ha : a ∈ acc) (ha' : a' ∈ acc) (hi : a.1 ≠ a'.1) :
    Disjoint a.2.owns a'.2.owns :=
  Script.disjoint_owns (h.forall ha ha' fun he => hi (congrArg Prod.fst he)).2

theorem AllApart.nodup (h : AllApart acc) : (acc.map Prod.fst).Nodup :=
  List.pairwise_map.mpr (h.imp fun h => h.1)

/-- What the script at a place has to itself. -/
def ownsAt (acc : List (Nat × Script)) (i : Nat) : Set String :=
  {n | ∃ a ∈ acc, a.1 = i ∧ n ∈ a.2.owns}

theorem AllApart.ownsAt_place (h : AllApart acc) (ha : a ∈ acc) : ownsAt acc a.1 = a.2.owns := by
  ext n
  constructor
  · rintro ⟨a', ha', hi, hn⟩
    exact h.eq_of_place ha' ha hi ▸ hn
  · exact fun hn => ⟨a, ha, rfl, hn⟩

theorem AllApart.disjoint_ownsAt (h : AllApart acc) (i i' : Nat) (hi : i ≠ i') :
    Disjoint (ownsAt acc i) (ownsAt acc i') := by
  rw [Set.disjoint_left]
  rintro n ⟨a, ha, rfl, hn⟩ ⟨a', ha', rfl, hn'⟩
  exact Set.disjoint_left.mp (h.disjoint ha ha' hi) hn hn'

/-! ## 2. From the beginning to the end -/

/-- The world in which the scripts of a batch begin. -/
structure Precompiler.Begins (p : Precompiler) (L : Location) (used : Set Script) (root scope : Nat)
    (made : String → Option Made) (w : World) : Prop where
  stands : Standing (inside L) w.files p.layout.root L
  shelf : p.layout.cache.Shelf (batchOwning L scope) (L ++ classesNames)
    (L ++ metadataNames) Set.univ (Boxes.ofMade ∘ made) w.files
  madeFrom : MadeFrom used made
  paved : Paved L adaptersNames w.files
  empty : w.files.EmptyAt (L ++ adaptersNames)
  sound : w.scopes.Sound
  scope : w.scopes.scope? scope = some (.fresh batchScopeName (some root))
  registered : w.registered = []
  now : w.now.valid = true

/-- What the scripts of a batch find. -/
def stageOf (made : String → Option Made) : Stage := ⟨made, fun _ => none, 0⟩

namespace Precompiler

/-- What is there when all scripts of a batch have ended, if each compiled at some times. -/
structure Ended (p : Precompiler) (L : Location) (scope : Nat) (acc : List (Nat × Script))
    (made : String → Option Made) (times : Nat → Phase → Instant) (w₀ w : World) : Prop where
  keeps : (batchOwning L scope).Keeps {n | ∃ a ∈ acc, n ∈ a.2.owns} w₀ w
  tally : (batchOwning L scope).tally w = (batchOwning L scope).tally w₀ +
    (acc.map fun a => (p.scriptOn a.2 scope (times a.1) (stageOf made)).2.tally).sum
  leaves : ∀ a ∈ acc, p.Leaves a.2 scope L (times a.1) (stageOf made)
    (p.scriptOn a.2 scope (times a.1) (stageOf made)).1
    (p.scriptOn a.2 scope (times a.1) (stageOf made)).2.tally w

variable {p : Precompiler} {L : Location} {used : Set Script} {root scope : Nat}
  {made : String → Option Made} {w₀ w : World}

/-- Every script begins where none of its names is exported and its adapter is missing. -/
theorem Begins.on (h : p.Begins L used root scope made w₀) (s : Script) :
    p.layout.cache.On (batchOwning L scope) (L ++ classesNames) (L ++ metadataNames) s.classNames
        (stageOf made) w₀ ∧
      AdapterSite p.layout L s.adapterFile none w₀.files := by
  refine ⟨⟨⟨⟨h.shelf.classesRoot, h.shelf.metadataRoot, fun n _ => h.shelf.classes n trivial,
    fun n _ => h.shelf.metadata n trivial⟩, ⟨h.sound, _, h.scope, rfl, fun n _ => ?_⟩, h.now⟩,
    fun n _ m hm => ⟨(h.madeFrom n m hm).1, (h.madeFrom n m hm).2.1⟩⟩, h.stands,
      h.paved, fun r => ?_⟩
  · exact Std.ExtTreeMap.getElem?_empty
  · rw [List.append_assoc]
    exact (h.empty.empty _ r).trans (ite_self none).symm

/-- Results are those of all places if each place has its own among them and there are no more. -/
theorem perm_of_places {α β : Type} {acc : List (Nat × α)} {rs : List (Nat × β)} {f : Nat × α → β}
    (hnodup : (acc.map Prod.fst).Nodup) (hplaces : (rs.map Prod.fst).Perm (acc.map Prod.fst))
    (hmem : ∀ a ∈ acc, (a.1, f a) ∈ rs) : rs.Perm (acc.map fun a => (a.1, f a)) := by
  have hall : (acc.map fun a => (a.1, f a)).Nodup :=
    .of_map Prod.fst (by rw [List.map_map]; exact hnodup)
  refine ((hall.subperm fun r hr => ?_).perm_of_length_le ?_).symm
  · obtain ⟨a, ha, rfl⟩ := List.mem_map.mp hr
    exact hmem a ha
  · have hlength := hplaces.length_eq
    rw [List.length_map, List.length_map] at hlength
    rw [List.length_map, hlength]

/-- **Whatever the schedule, each script leaves what it would leave alone.** -/
theorem Begins.ended (h : p.Begins L used root scope made w₀) (hfit : p.layout.Fitting)
    (htakes : ∀ s ∈ used, p.layout.Takes s) (hapart : AllApart acc) (hacc : ∀ a ∈ acc, a.2 ∈ used)
    {workers : Nat} {q : Pool ScriptResult}
    (hs : Pool.Steps workers (.queue (p.jobs scope acc) w₀) q) (hq : q.IsOver) :
    ∃ times, p.Ended L scope acc made times w₀ q.world ∧
      q.finished.Perm (acc.map fun a =>
        (a.1, (p.scriptOn a.2 scope (times a.1) (stageOf made)).1)) := by
  let Q (i : Nat) (r : ScriptResult) (e : Tally) (w : World) : Prop :=
    ∃ a ∈ acc, a.1 = i ∧ ∃ now, p.Leaves a.2 scope L now (stageOf made) r e w
  have hplaces : (p.jobs scope acc).map Prod.fst = acc.map Prod.fst := by
    rw [jobs, List.map_map]
    rfl
  have hends : ∀ j ∈ p.jobs scope acc,
      (batchOwning L scope).Ends (ownsAt acc j.1) (Q j.1) j.2 0 w₀ := by
    intro j hj
    obtain ⟨a, ha, rfl⟩ := List.mem_map.mp hj
    obtain ⟨hon, hsite⟩ := h.on a.2
    rw [hapart.ownsAt_place ha]
    exact (ends_compileScript hfit (htakes _ (hacc a ha)) hon (fun _ => rfl) hsite).imp
      fun r e w hr => ⟨a, ha, rfl, hr⟩
  obtain ⟨hperm, hkeeps, counts, hsum, hfinished⟩ := hs.finished hapart.disjoint_ownsAt
    (hplaces ▸ hapart.nodup) hends hq
  rw [hplaces] at hperm hkeeps hsum
  -- Each script has its times, and has left what it leaves at these times.
  have htimes : ∀ i, ∃ now, ∀ a ∈ acc, a.1 = i → ∃ r, (i, r) ∈ q.finished ∧
      p.Leaves a.2 scope L now (stageOf made) r (counts i) q.world := by
    intro i
    by_cases hi : ∃ a ∈ acc, a.1 = i
    · obtain ⟨a, ha, rfl⟩ := hi
      obtain ⟨⟨i, r⟩, hr, he⟩ := List.mem_map.mp
        (hperm.symm.subset (List.mem_map_of_mem (f := Prod.fst) ha))
      obtain ⟨a', ha', hplace, now, hleaves⟩ := hfinished _ hr
      refine ⟨now, fun a'' ha'' he'' => ⟨r, he ▸ hr, ?_⟩⟩
      rw [hapart.eq_of_place ha'' ha' (he''.trans (he.symm.trans hplace.symm))]
      exact he ▸ hleaves
    · exact ⟨fun _ => w₀.now, fun a ha he => absurd ⟨a, ha, he⟩ hi⟩
  choose times htimes using htimes
  have hleaves (a : Nat × Script) (ha : a ∈ acc) :
      (a.1, (p.scriptOn a.2 scope (times a.1) (stageOf made)).1) ∈ q.finished ∧
        counts a.1 = (p.scriptOn a.2 scope (times a.1) (stageOf made)).2.tally ∧
        p.Leaves a.2 scope L (times a.1) (stageOf made)
          (p.scriptOn a.2 scope (times a.1) (stageOf made)).1
          (p.scriptOn a.2 scope (times a.1) (stageOf made)).2.tally q.world := by
    obtain ⟨r, hr, hleaves⟩ := htimes a.1 a ha rfl
    rw [← hleaves.result, ← hleaves.tally]
    exact ⟨hr, rfl, hleaves⟩
  refine ⟨times, ⟨?_, ?_, fun a ha => (hleaves a ha).2.2⟩, ?_⟩
  · refine hkeeps.mono fun n hn => ?_
    obtain ⟨i, -, a, ha, -, hn⟩ := hn
    exact ⟨a, ha, hn⟩
  · rw [hsum, List.map_map]
    exact congrArg (fun l : List Tally => _ + l.sum)
      (List.map_congr_left fun a ha => (hleaves a ha).2.1)
  · exact perm_of_places hapart.nodup hperm fun a ha => (hleaves a ha).1

end Precompiler

end ScriptPlugins
