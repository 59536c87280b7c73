import Mathlib.Data.List.Nodup
import ScriptPlugins.Compiled.ClassFile
import ScriptPlugins.Outcome
import ScriptPlugins.Proofs.Files.Contents

/-!
# Directories of classes — what is read from one

The classes of a directory are read if each of its class files can be read, and then there is one
class for each file.  A class has a name of its own, whatever its file is called: several files of
one directory may hold classes of one name.
-/

namespace ScriptPlugins

/-! ## 1. Names -/

/-- The order in which names are compared. -/
theorem isLE_compare_name {a b : String} : (compare a b).isLE = true ↔ a ≤ b := by
  rw [show compare a b = compareOfLessAndEq a b from rfl, compareOfLessAndEq]
  split
  next hlt => simp [String.not_lt.mp (String.lt_asymm hlt)]
  next hnot =>
    split
    next he => simp [he]
    next hne =>
      have hgt : ¬a ≤ b := fun hle => hne (String.le_antisymm hle (String.not_lt.mp hnot))
      simp [hgt]

/-- What is sorted by names stands in the order of its names. -/
theorem sorted_mergeSort_name {α : Type} (name : α → String) (as : List α) :
    (as.mergeSort fun a b => (compare (name a) (name b)).isLE).Pairwise fun a b =>
      name a ≤ name b := by
  refine (List.pairwise_mergeSort (fun a b c hab hbc => ?_) (fun a b => ?_) as).imp
    isLE_compare_name.mp
  · exact isLE_compare_name.mpr
      (String.le_trans (isLE_compare_name.mp hab) (isLE_compare_name.mp hbc))
  · rw [Bool.or_eq_true, isLE_compare_name, isLE_compare_name]
    exact String.le_total (name a) (name b)

namespace FileTree

variable {t : FileTree} {dir : Path} {cs : List CompiledClass} {c : CompiledClass} {file : String}

/-! ## 2. Class files -/

/-- The names of the class files directly inside a directory; none if it cannot be listed. -/
def classFiles (t : FileTree) (dir : Path) : List String :=
  match t.list dir with
  | .error _ => []
  | .ok entries => (entries.map Prod.fst).filter fun name =>
    isClassFileName name && t.isFile (dir.join name)

/-- A class file directly inside a directory holds a class. -/
def Holds (t : FileTree) (dir : Path) (file : String) (c : CompiledClass) : Prop :=
  file ∈ t.classFiles dir ∧ t.readClass (dir.join file) = .ok c

theorem Holds.unique {c' : CompiledClass} (h : t.Holds dir file c) (h' : t.Holds dir file c') :
    c = c' := Except.ok.inj (h.2.symm.trans h'.2)

/-- A directory hands out each name once. -/
theorem nodup_list {entries : List (String × Entry)} (h : t.list dir = .ok entries) :
    (entries.map Prod.fst).Nodup := by
  obtain ⟨l, -, h⟩ := bind_eq_ok h
  obtain ⟨_, -, h⟩ := bind_eq_ok h
  cases h
  rw [List.map_reverse, List.nodup_reverse]
  exact nodup_children t l

theorem nodup_classFiles (t : FileTree) (dir : Path) : (t.classFiles dir).Nodup := by
  rw [classFiles]
  cases h : t.list dir with
  | error e => exact .nil
  | ok entries => exact (nodup_list h).filter _

/-! ## 3. Reading -/

/-- What is read is the classes of the class files, each file once, in the order of the classes'
names. -/
theorem readClasses_eq_ok_iff : t.readClasses dir = .ok cs ↔ (∃ entries, t.list dir = .ok entries) ∧
    ∃ ds : List CompiledClass, (t.classFiles dir).map (fun file => t.readClass (dir.join file)) =
      ds.map .ok ∧ cs = ds.mergeSort fun a b => (compare a.name b.name).isLE := by
  rw [readClasses, classFiles]
  cases t.list dir with
  | error e => simp
  | ok entries =>
    simp only [Except.ok.injEq, exists_eq', true_and]
    constructor
    · intro h
      obtain ⟨ds, hds, he⟩ := map_eq_ok h
      exact ⟨ds, mapM_eq_ok_iff.mp hds, he.symm⟩
    · rintro ⟨ds, hds, rfl⟩
      rw [mapM_eq_ok_iff.mpr hds]
      rfl

/-- The classes of a directory can be read exactly if the directory can be listed and each of its
class files can be read. -/
theorem exists_readClasses_iff : (∃ cs, t.readClasses dir = .ok cs) ↔
    (∃ entries, t.list dir = .ok entries) ∧ ∀ file ∈ t.classFiles dir, ∃ c, t.Holds dir file c := by
  simp only [readClasses_eq_ok_iff]
  constructor
  · rintro ⟨cs, hlist, ds, hds, -⟩
    refine ⟨hlist, fun file hfile => ?_⟩
    have hmem := List.mem_map_of_mem (f := fun file => t.readClass (dir.join file)) hfile
    rw [hds] at hmem
    obtain ⟨c, -, hc⟩ := List.mem_map.mp hmem
    exact ⟨c, hfile, hc.symm⟩
  · rintro ⟨hlist, hall⟩
    obtain ⟨ds, hds⟩ := exists_map_ok fun file hfile => (hall file hfile).imp fun _ h => h.2
    exact ⟨_, hlist, ds, hds, rfl⟩

theorem perm_readClasses (h : t.readClasses dir = .ok cs) :
    (cs.map .ok).Perm ((t.classFiles dir).map fun file => t.readClass (dir.join file)) := by
  obtain ⟨-, ds, hds, rfl⟩ := readClasses_eq_ok_iff.mp h
  rw [hds]
  exact (List.mergeSort_perm ..).map _

theorem mem_readClasses (h : t.readClasses dir = .ok cs) : c ∈ cs ↔ ∃ file, t.Holds dir file c := by
  have hinj : Function.Injective
      (Except.ok : CompiledClass → Except ClassFileError CompiledClass) :=
    fun _ _ => Except.ok.inj
  rw [← List.mem_map_of_injective hinj, (perm_readClasses h).mem_iff, List.mem_map]
  exact Iff.rfl

/-- The names of the classes that are read stand in order. -/
theorem sorted_readClasses (h : t.readClasses dir = .ok cs) :
    (cs.map CompiledClass.name).Pairwise (· ≤ ·) := by
  obtain ⟨-, ds, -, rfl⟩ := readClasses_eq_ok_iff.mp h
  rw [List.pairwise_map]
  exact sorted_mergeSort_name CompiledClass.name ds

/-- The names of the classes that are read differ exactly if no two files hold classes of one
name. -/
theorem nodup_readClasses_iff (h : t.readClasses dir = .ok cs) : (cs.map CompiledClass.name).Nodup ↔
    ∀ file c file' c', t.Holds dir file c → t.Holds dir file' c' → c.name = c'.name →
      file = file' := by
  -- Up to their order, the names that are read are those in the files, and no file occurs twice.
  let nameIn (file : String) : Except ClassFileError String :=
    (t.readClass (dir.join file)).map CompiledClass.name
  have hperm : ((cs.map CompiledClass.name).map .ok).Perm ((t.classFiles dir).map nameIn) := by
    have h' := (perm_readClasses h).map (Except.map CompiledClass.name)
    rwa [List.map_map, List.map_map, show Except.map CompiledClass.name ∘ .ok =
      (Except.ok : _ → Except ClassFileError _) ∘ CompiledClass.name from rfl, ← List.map_map] at h'
  rw [← List.nodup_map_iff (f := (Except.ok : _ → Except ClassFileError _)) fun _ _ =>
    Except.ok.inj, hperm.nodup_iff, List.nodup_map_iff_inj_on (t.nodup_classFiles dir)]
  have hname {file : String} {c : CompiledClass} (hc : t.Holds dir file c) :
      nameIn file = .ok c.name := congrArg (Except.map CompiledClass.name) hc.2
  constructor
  · intro hinj file c file' c' hc hc' he
    exact hinj file hc.1 file' hc'.1 (by rw [hname hc, hname hc', he])
  · intro hapart file hfile file' hfile' he
    obtain ⟨-, hread⟩ := exists_readClasses_iff.mp ⟨cs, h⟩
    obtain ⟨c, hc⟩ := hread file hfile
    obtain ⟨c', hc'⟩ := hread file' hfile'
    rw [hname hc, hname hc'] at he
    exact hapart file c file' c' hc hc' (Except.ok.inj he)

end FileTree

end ScriptPlugins
