import ScriptPlugins.Cache.Listing
import ScriptPlugins.Proofs.Compiled.Directories
import ScriptPlugins.Proofs.Job.Preserving

/-!
# Listing — what a cache tells of its entries

The directories below the metadata root are the entries, whatever else stands there.  They are told
in the order of their names, each of them once.  An entry that can be read is listed, and one that
cannot be read is counted as corrupt.
-/

namespace ScriptPlugins

namespace Cache

variable {c : Cache} {t : FileTree} {M : Location} {ns : List String} {w : World}

/-! ## 1. Names -/

theorem names_eq_ok_iff : c.names t = .ok ns ↔ ∃ entries, t.list c.metadataRoot = .ok entries ∧
    ns = (entries.filterMap fun (name, e) => if e = .directory then some name else none).mergeSort
      fun a b => (compare a b).isLE := by
  rw [names]
  cases t.list c.metadataRoot <;> simp [eq_comm]

/-- The names of the entries stand in order, each of them once. -/
theorem sorted_names (h : c.names t = .ok ns) : ns.Pairwise (· < ·) := by
  obtain ⟨entries, hlist, rfl⟩ := names_eq_ok_iff.mp h
  have hnodup :
      (entries.filterMap fun (name, e) =>
        if e = Entry.directory then some name else none).Nodup := by
    refine (FileTree.nodup_list hlist).of_map.filterMap ?_
    rintro ⟨n, e⟩ ⟨n', e'⟩ name hn hn'
    simp only [Option.mem_def, Option.ite_none_right_eq_some, Option.some.injEq] at hn hn'
    rw [hn.1, hn.2, hn'.1, hn'.2]
  refine ((sorted_mergeSort_name id _).and ((List.mergeSort_perm ..).nodup_iff.mpr hnodup)).imp ?_
  rintro a b ⟨hle, hne⟩
  exact String.not_le.mp fun hge => hne (String.le_antisymm hle hge)

/-- A root that is there holds the entry of a name if the directory of that name stands in it. -/
theorem names_of_locate (hl : t.locate c.metadataRoot = .ok M) (hM : t.entry? M = some .directory) :
    ∃ ns, c.names t = .ok ns ∧ ∀ n, n ∈ ns ↔ t.entry? (M ++ [n]) = some .directory := by
  refine ⟨_, names_eq_ok_iff.mpr ⟨_, FileTree.list_of_locate hl hM, rfl⟩, fun n => ?_⟩
  rw [List.mem_mergeSort, List.mem_filterMap, ← FileTree.mem_children]
  simp

/-! ## 2. Entries -/

/-- What is listed for a name and its metadata: nothing if that cannot be read. -/
def listed (c : Cache) : String × Except LoadError Metadata → Option CacheEntry
  | (name, .ok m) => some ⟨name, m, c.classesDir name, c.metadataDir name⟩
  | (_, .error _) => none

/-- What is reported for a name whose metadata cannot be read. -/
def unlisted : String × Except LoadError Metadata → Option Log.Event
  | (_, .ok _) => none
  | (name, .error e) => some (.entryUnreadable name e.message)

theorem read_eq : c.read t =
    (c.names t).map (·.map fun name => (name, t.readMetadata (c.metadataDir name))) := by
  rw [read]
  cases c.names t <;> rfl

theorem run_list_error {e : BuildError} (h : c.read w.files = .error e) :
    Job.run c.list.run w = (.error e, w) := by
  rw [list, Attempt.run_bind_ok (Attempt.run_files w)]
  exact Attempt.run_bind_error (Attempt.run_of h w)

/-- All entries that can be read are listed, and the others are reported. -/
theorem run_list {rs : List (String × Except LoadError Metadata)} (h : c.read w.files = .ok rs) :
    Job.run c.list.run w =
      (.ok (rs.filterMap c.listed), { w with log := w.log ++ rs.filterMap unlisted }) := by
  rw [list, Attempt.run_bind_ok (Attempt.run_files w), Attempt.run_bind_ok (Attempt.run_of h w),
    List.filterMap_eq_flatMap_toList, List.filterMap_eq_flatMap_toList, List.flatMap_eq_foldl]
  refine Attempt.run_bind_ok
    (Attempt.run_forIn_yield (fun entries x => entries ++ (c.listed x).toList)
    (fun x => (unlisted x).toList) ?_ rs [] w)
  rintro ⟨name, metadata⟩ entries w
  cases metadata with
  | ok m => exact congrArg (fun log => (_, { w with log })) (List.append_nil w.log).symm
  | error e => rw [listed, Option.toList_none, List.append_nil]; rfl

/-- The names of the listed entries are some of all names, in the same order. -/
theorem sublist_listed {rs : List (String × Except LoadError Metadata)} :
    ((rs.filterMap c.listed).map CacheEntry.className).Sublist (rs.map Prod.fst) := by
  induction rs with
  | nil => exact .slnil
  | cons r rs ih =>
    obtain ⟨name, m | e⟩ := r
    · exact ih.cons name
    · exact ih.cons_cons name

/-- Whatever stands below the metadata root, what is listed stands in the order of its names, each
of them once. -/
theorem sorted_list {rs : List (String × Except LoadError Metadata)} (h : c.read t = .ok rs) :
    ((rs.filterMap c.listed).map CacheEntry.className).Pairwise (· < ·) := by
  rw [read_eq] at h
  obtain ⟨ns, hns, rfl⟩ := map_eq_ok h
  refine (sorted_names hns).sublist (sublist_listed.trans ?_)
  rw [List.map_map]
  exact (List.map_id ns).symm ▸ .refl _

/-! ## 3. Counts -/

/-- What counts tell of the entries that are listed: the corrupt ones are those that are not, and
the others are counted apart if their run does nothing. -/
structure Counts (entries : List CacheEntry) (stats : CacheStats) : Prop where
  total : stats.total = entries.length + stats.corrupt
  noop : stats.noop = entries.countP fun e => !e.metadata.runDoesSomething

theorem counts_stats {rs : List (String × Except LoadError Metadata)} (h : c.read t = .ok rs) :
    ∃ stats, c.stats t = .ok stats ∧ Counts (rs.filterMap c.listed) stats := by
  refine ⟨_, by rw [stats, h]; rfl, ?_, ?_⟩
  · rw [List.length_filterMap_eq_countP,
      List.length_eq_countP_add_countP (fun r => (c.listed r).isSome)]
    refine congrArg _ (List.countP_congr ?_)
    rintro ⟨name, m | e⟩ - <;> simp [listed, Except.isOk, Except.toBool]
  · rw [List.countP_filterMap]
    refine List.countP_congr ?_
    rintro ⟨name, m | e⟩ - <;> simp [listed, isNoop]

/-- **Counting agrees with listing**, whatever stands below the metadata root and whatever is
damaged: either both fail for one reason, or the counts are those of what is listed. -/
theorem list_counts (c : Cache) (w : World) :
    (∃ e, (Job.run c.list.run w).1 = .error e ∧ c.stats w.files = .error e) ∨
      ∃ entries stats, (Job.run c.list.run w).1 = .ok entries ∧ c.stats w.files = .ok stats ∧
        Counts entries stats := by
  cases h : c.read w.files with
  | error e =>
    refine .inl ⟨e, congrArg Prod.fst (run_list_error h), ?_⟩
    rw [stats, h]
    rfl
  | ok rs =>
    obtain ⟨stats, hstats, hcounts⟩ := counts_stats h
    exact .inr ⟨_, stats, congrArg Prod.fst (run_list h), hstats, hcounts⟩

end Cache

end ScriptPlugins
