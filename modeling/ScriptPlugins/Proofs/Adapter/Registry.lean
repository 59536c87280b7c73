import ScriptPlugins.Adapter.Registry
import ScriptPlugins.Proofs.Adapter.Text
import ScriptPlugins.Proofs.Batch.Output
import ScriptPlugins.Proofs.Files.Contents

/-!
# Registries — a directory that holds the files of some adapters

The registry of such a directory has each of these adapters under the id of its script, and no
others.
-/

namespace ScriptPlugins

variable {t : FileTree} {dir : Path} {a : Adapter} {as : List Adapter}

/-- The file of an adapter is one that a registry reads. -/
theorem Adapter.extensionOf?_fileName (h : a.name ≠ "") :
    Path.extensionOf? a.fileName = some "toml" := by
  obtain ⟨c, cs, hcs⟩ := List.exists_cons_of_ne_nil fun hnil => h (String.toList_eq_nil_iff.mp hnil)
  have hlist : a.fileName.toList = (c :: cs) ++ ".toml".toList := by
    rw [fileName, String.toList_append, hcs]
  have hextension : ".toml".toList = ['.', 't', 'o', 'm', 'l'] := rfl
  have hafter : ((a.fileName.toList.reverse.takeWhile (· ≠ '.')).reverse) =
      ['t', 'o', 'm', 'l'] := by
    rw [hlist, List.reverse_append, hextension]
    rfl
  unfold Path.extensionOf?
  simp only [hafter]
  rw [if_pos (by rw [hlist, List.length_append, hextension]; simp)]

/-- Adapters for different scripts are found by the ids of the scripts. -/
theorem Adapter.find?_scriptId (h : (as.map scriptId).Nodup) {id : String} :
    as.find? (·.scriptId = id) = some a ↔ a ∈ as ∧ a.scriptId = id := by
  constructor
  · exact fun ha => ⟨List.mem_of_find?_eq_some ha, by simpa using List.find?_some ha⟩
  · rintro ⟨ha, rfl⟩
    obtain ⟨b, hb⟩ : ∃ b, as.find? (·.scriptId = a.scriptId) = some b := by
      rw [← Option.isSome_iff_exists, List.find?_isSome]
      exact ⟨a, ha, by simp⟩
    have hid : b.scriptId = a.scriptId := by simpa using List.find?_some hb
    rw [hb, List.inj_on_of_nodup_map h (List.mem_of_find?_eq_some hb) ha hid]

/-- The file of an adapter is read back, if the id of its script can stand in a comment. -/
theorem FileTree.readAdapter_of_look {q : Path} (h : t.look q = .ok (.file a.print.toUTF8))
    (hid : ∀ c ∈ a.scriptId.toList, Toml.isPrintable c = true) : t.readAdapter q = .ok a := by
  have hread : Adapter.read a.print = some a := by
    rw [Adapter.read, Adapter.read_print_members hid]
    exact a.ofMembers?_texts
  rw [readAdapter, readText_of_look h]
  simp only [hread]

/-- A directory that has the name of an adapter cannot be read as one, and so there is no
registry. -/
theorem FileTree.readRegistry_of_directory {entries : List (String × Entry)} {e : String × Entry}
    (h : t.list dir = .ok entries) (he : e ∈ entries) (hname : Path.extensionOf? e.1 = some "toml")
    (hd : t.look (dir.join e.1) = .ok .directory) : (t.readRegistry dir).isOk = false := by
  have hread : t.readAdapter (dir.join e.1) = .error (.files (dir.join e.1) .isADirectory) := by
    rw [readAdapter, readText, readBytes, hd]
    rfl
  by_contra hok
  obtain ⟨registry, hregistry⟩ := exists_ok ((Bool.not_eq_false _).mp hok)
  rw [readRegistry, h] at hregistry
  obtain ⟨adapters, hadapters, -⟩ := bind_eq_ok hregistry
  have hmem : e.1 ∈ (entries.map Prod.fst).filter
      fun name => Path.extensionOf? name = some "toml" :=
    List.mem_filter.mpr ⟨List.mem_map_of_mem he, by simpa using hname⟩
  have hanswer := List.mem_map_of_mem (f := fun name => t.readAdapter (dir.join name)) hmem
  rw [mapM_eq_ok_iff.mp hadapters, hread] at hanswer
  obtain ⟨a, -, ha⟩ := List.mem_map.mp hanswer
  cases ha

/-- **A directory that holds the files of some adapters is read as their registry.** -/
theorem FileTree.readRegistry_of_list {entries : List (String × Entry)}
    (hlist : t.list dir = .ok entries)
    (hnames : ∀ n, n ∈ entries.map Prod.fst ↔ ∃ a ∈ as, a.fileName = n)
    (hread : ∀ a ∈ as, t.readAdapter (dir.join a.fileName) = .ok a) (hname : ∀ a ∈ as, a.name ≠ "")
    (hids : (as.map Adapter.scriptId).Nodup) :
    ∃ registry, t.readRegistry dir = .ok registry ∧
      ∀ (id : String) (a : Adapter), registry[id]? = some a ↔ a ∈ as ∧ a.scriptId = id := by
  let names := (entries.map Prod.fst).filter fun name => Path.extensionOf? name = some "toml"
  have hmem (n : String) : n ∈ names ↔ ∃ a ∈ as, a.fileName = n := by
    rw [List.mem_filter, hnames, decide_eq_true_eq]
    refine and_iff_left_of_imp ?_
    rintro ⟨a, ha, rfl⟩
    exact Adapter.extensionOf?_fileName (hname a ha)
  obtain ⟨bs, hbs, hof, hto⟩ := exists_mapM_eq_ok (f := fun name => t.readAdapter (dir.join name))
    (P := fun n b => b ∈ as ∧ b.fileName = n ∧ t.readAdapter (dir.join n) = .ok b)
    fun n (hn : n ∈ names) => by
      obtain ⟨a, ha, rfl⟩ := (hmem n).mp hn
      exact ⟨a, hread a ha, ha, rfl, hread a ha⟩
  -- What is read are the adapters, for each file tells which one it is.
  have hsame (b : Adapter) : b ∈ bs ↔ b ∈ as := by
    constructor
    · intro hb
      obtain ⟨n, -, hb, -⟩ := hto b hb
      exact hb
    · intro hb
      obtain ⟨b', hb', -, -, hread'⟩ := hof _ ((hmem _).mpr ⟨b, hb, rfl⟩)
      rwa [Except.ok.inj ((hread b hb).symm.trans hread')]
  refine ⟨bs.foldl (fun m a => m.insert a.scriptId a) ∅, ?_, fun id a => ?_⟩
  · rw [readRegistry, hlist]
    show (names.mapM (fun name => t.readAdapter (dir.join name)) >>= _) = _
    rw [hbs]
    rfl
  · have hfind (b : Adapter) (hb : b ∈ bs) : as.find? (·.scriptId = b.scriptId) = some b :=
      (Adapter.find?_scriptId hids).mpr ⟨(hsame b).mp hb, rfl⟩
    rw [getElem?_foldl_insert (x := fun id => as.find? (·.scriptId = id)) hfind]
    split
    · exact Adapter.find?_scriptId hids
    next hid =>
      rw [Std.ExtTreeMap.getElem?_empty]
      exact ⟨fun h => (by cases h), fun ⟨ha, he⟩ => absurd ⟨a, (hsame a).mpr ha, he⟩ hid⟩

end ScriptPlugins
