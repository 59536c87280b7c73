import Mathlib.Data.List.Forall2
import ScriptPlugins.Config.Basic
import ScriptPlugins.Discovery.Scripts
import ScriptPlugins.Proofs.Discovery.Finding

/-!
# Scripts — which files of a directory are found as scripts

A name says at most one id and kind, and only one name says these.
-/

namespace ScriptPlugins

/-! ## 1. Names of script files -/

/-- What stands behind the id in the name of a script file. -/
def ScriptKind.mark : ScriptKind → String
  | .project => ""
  | .settings => ".settings"
  | .invocation => ".init"

/-- A name is the id, the mark of the kind and the extension. -/
theorem eq_of_scriptIdentity? {name extension id : String} {kind : ScriptKind}
    (h : scriptIdentity? name extension = some (id, kind)) :
    name = id ++ kind.mark ++ ("." ++ extension) ∧ id ≠ "" := by
  obtain ⟨stem, hstem, h⟩ := Option.bind_eq_some_iff.mp h
  rw [Text.withoutEnd?_eq_some.mp hstem]
  -- The first mark that the stem ends in is taken off, or none.
  split at h
  next hmatch =>
    split at h
    · cases h
    next hne =>
      cases h
      refine ⟨?_, hne⟩
      congr 1
      split at hmatch
      next hsettings =>
        cases hmatch
        exact Text.withoutEnd?_eq_some.mp hsettings
      next hinit =>
        cases hmatch
        exact Text.withoutEnd?_eq_some.mp hinit
      next =>
        cases hmatch
        exact String.append_empty.symm

/-- No two names say the same id and kind. -/
theorem scriptIdentity?_inj {name name' extension : String} {answer : String × ScriptKind}
    (h : scriptIdentity? name extension = some answer)
    (h' : scriptIdentity? name' extension = some answer) : name = name' :=
  (eq_of_scriptIdentity? h).1.trans (eq_of_scriptIdentity? h').1.symm

namespace FileTree

variable {t : FileTree} {dir p q : Path} {l : Location} {extension : String} {s : Script}
  {scripts : List Script}

/-! ## 2. Loading -/

theorem readText_eq_ok {source : String} : t.readText p = .ok source ↔
    ∃ bytes, t.look p = .ok (.file bytes) ∧ String.fromUTF8? bytes = some source := by
  constructor
  · intro h
    obtain ⟨bytes, hbytes, h⟩ := bind_eq_ok h
    obtain ⟨e, hlook, hread⟩ := bind_eq_ok hbytes
    cases e with
    | directory => cases hread
    | file bytes' =>
      cases hread
      refine ⟨bytes, hlook, ?_⟩
      split at h
      · rwa [← Except.ok.inj h]
      · cases h
  · rintro ⟨bytes, hlook, hbytes⟩
    rw [readText_eq hlook, hbytes]
    rfl

/-- A script is loaded from a file whose name says its id and kind, and whose text is its source. -/
theorem loadScript_eq_ok : t.loadScript p extension = .ok s ↔ s.path = some p ∧
    t.readText p = .ok s.source ∧
    ∃ name, p.fileName? = some name ∧ scriptIdentity? name extension = some (s.id, s.kind) := by
  unfold loadScript
  cases hname : p.fileName? with
  | none => simp
  | some name =>
    simp only [Option.some.injEq, exists_eq_left']
    cases hidentity : scriptIdentity? name extension with
    | none => simp
    | some answer =>
      obtain ⟨id, kind⟩ := answer
      cases hread : t.readText p with
      | error e => simp
      | ok source =>
        simp only [Except.ok.injEq, Option.some.injEq, Prod.mk.injEq]
        constructor
        · rintro rfl
          exact ⟨rfl, rfl, rfl, rfl⟩
        · rintro ⟨hpath, rfl, rfl, rfl⟩
          cases s
          simp_all

/-- The scripts of a directory are loaded from its script files, one from each. -/
theorem discoverScripts_eq_ok : t.discoverScripts dir extension = .ok scripts ↔
    ∃ ps, t.scriptFiles dir extension = .ok ps ∧
      ps.map (t.loadScript · extension) = scripts.map .ok := by
  constructor
  · intro h
    obtain ⟨ps, hps, h⟩ := bind_eq_ok h
    exact ⟨ps, hps, mapM_eq_ok_iff.mp h⟩
  · rintro ⟨ps, hps, h⟩
    rw [discoverScripts, hps]
    exact mapM_eq_ok_iff.mpr h

theorem map_eq_map_ok {ε α β : Type} {f : α → Except ε β} {as : List α} {bs : List β} :
    as.map f = bs.map .ok ↔ List.Forall₂ (fun a b => f a = .ok b) as bs := by
  rw [← List.forall₂_eq_eq_eq, List.forall₂_map_left_iff, List.forall₂_map_right_iff]

/-! ## 3. What is found -/

/-- Scripts in the order of their paths. -/
def InPathOrder (scripts : List Script) : Prop :=
  scripts.Pairwise fun s s' => ∀ p ∈ s.path, ∀ q ∈ s'.path, p.precedes q = true

theorem sorted_scriptFiles {ps : List Path} (h : t.scriptFiles dir extension = .ok ps) :
    ps.Pairwise fun p q => p.precedes q = true := by
  simp only [scriptFiles] at h
  split at h
  · split at h
    · cases h
    · obtain rfl := Except.ok.inj h
      exact Path.sorted_mergeSort_precedes _
  · obtain rfl := Except.ok.inj h
    exact .nil

theorem inPathOrder_of_loaded {ps : List Path}
    (h : ps.map (t.loadScript · extension) = scripts.map .ok)
    (hps : ps.Pairwise fun p q => p.precedes q = true) : InPathOrder scripts := by
  have hpaths : scripts.map Script.path = ps.map some := by
    rw [← List.forall₂_eq_eq_eq, List.forall₂_map_left_iff, List.forall₂_map_right_iff]
    exact ((map_eq_map_ok.mp h).imp fun _ _ hs => (loadScript_eq_ok.mp hs).1).flip
  have hsome : (ps.map some).Pairwise fun o o' => ∀ p ∈ o, ∀ q ∈ o', p.precedes q = true :=
    List.pairwise_map.mpr <| hps.imp fun hpq p' hp' q' hq' => by
      obtain rfl := Option.some.inj hp'
      obtain rfl := Option.some.inj hq'
      exact hpq
  rw [← hpaths] at hsome
  exact List.pairwise_map.mp hsome

/-- A script that is the text of a file, under the id and kind that the name of the file says. -/
def IsScript (t : FileTree) (extension : String) (s : Script) : Prop :=
  ∃ p bytes name, s.path = some p ∧ t.look p = .ok (.file bytes) ∧
    String.fromUTF8? bytes = some s.source ∧ p.fileName? = some name ∧
      scriptIdentity? name extension = some (s.id, s.kind)

/-- Whatever a directory and an extension are read as, only scripts are found. -/
theorem sound_discoverScripts (h : t.discoverScripts dir extension = .ok scripts) :
    InPathOrder scripts ∧ ∀ s ∈ scripts, t.IsScript extension s := by
  obtain ⟨ps, hps, hloaded⟩ := discoverScripts_eq_ok.mp h
  refine ⟨inPathOrder_of_loaded hloaded (sorted_scriptFiles hps), fun s hs => ?_⟩
  obtain ⟨p, -, hload⟩ : ∃ p ∈ ps, t.loadScript p extension = .ok s :=
    List.mem_map.mp (hloaded ▸ List.mem_map_of_mem hs)
  obtain ⟨hpath, hread, name, hname, hidentity⟩ := loadScript_eq_ok.mp hload
  obtain ⟨bytes, hlook, hbytes⟩ := readText_eq_ok.mp hread
  exact ⟨p, bytes, name, hpath, hlook, hbytes, hname, hidentity⟩

/-! ## 4. All scripts of a directory -/

/-- A directory to be searched for files of an extension.  Neither has a wildcard in it, and
everything below the directory can be reached by a path. -/
structure Searched (t : FileTree) (dir : Path) (l : Location) (extension : String) : Prop where
  proper : t.Proper
  locate : t.locate dir = .ok l
  directory : t.entry? l = some .directory
  literal : IsLiteral dir.text.toList
  bare : Config.isBareExtension extension = true
  literal_extension : IsLiteral extension.toList
  fits : ∀ r, t.entry? (l ++ r) ≠ none → Fits (dir.join (Text.joinWith "/" r))

/-- The files below a location whose names end in an extension. -/
def filesWith (t : FileTree) (l : Location) (extension : String) : List (Location × ByteArray) :=
  (t.filesBelow l).filter fun x => hasExtension extension (nameOf x.1)

/-- A script that was found in a file below a location. -/
structure FoundIn (t : FileTree) (l : Location) (extension : String) (x : Location × ByteArray)
    (s : Script) : Prop where
  identity : scriptIdentity? (nameOf x.1) extension = some (s.id, s.kind)
  source : String.fromUTF8? x.2 = some s.source
  path : ∃ p, s.path = some p ∧ t.locate p = .ok (l ++ x.1)

namespace Searched

variable (h : t.Searched dir l extension)

include h

theorem text_ne : dir.text ≠ "" := (place_eq_ok.mp (locate_eq_ok.mp h.locate).1).1.text_ne

theorem scriptFiles_eq : t.scriptFiles dir extension =
    .ok (((t.find (dir.pieces.map .plain ++ [.anyDepth, .wild (endsInExtension extension)])
      dir.start).filter t.isFile).mergeSort Path.precedes) := by
  have hdirectory : t.isDirectory dir = true := by
    rw [isDirectory, look_of_locate h.locate h.directory]
  have hslash : '/' ∉ extension.toList := by
    have hbare := h.bare
    simp only [Config.isBareExtension, decide_eq_true_eq] at hbare
    exact hbare.2.2
  simp only [scriptFiles, hdirectory, if_true,
    Pattern.ofText?_below h.text_ne h.literal h.literal_extension hslash]
  rfl

/-- A directory whose path loses its way is searched in vain. -/
theorem discoverScripts_lost (hway : dir.losesWay = true) :
    t.discoverScripts dir extension = .ok [] := by
  simp only [Path.losesWay, decide_eq_true_eq] at hway
  have hnone : t.scriptFiles dir extension = .ok [] := by
    rw [h.scriptFiles_eq, Path.start, if_pos hway.1, find_lost hway.2, List.filter_nil,
      List.mergeSort_nil]
  exact discoverScripts_eq_ok.mpr ⟨[], hnone, rfl⟩

/-- Any other directory is reached, by a path with room for all that is below it. -/
theorem exists_reached (hway : dir.losesWay = false) :
    ∃ q, t.Reached q l ∧ (∀ r, r ≠ [] → t.entry? (l ++ r) ≠ none → Fits (q.ground.down r)) ∧
      ∀ rest, t.find (dir.pieces.map .plain ++ rest) dir.start = t.find rest q := by
  obtain ⟨m, hstart, hwalk⟩ := exists_start h.locate
  obtain ⟨htext, hpieces⟩ := Path.text_join_empty_eq h.text_ne
  have hfits : Fits (dir.join "") := h.fits [] (by rw [List.append_nil, h.directory]; exact nofun)
  have hstem : dir.start.stem.toList = dir.lead := by
    unfold Path.start Path.lead
    by_cases hroot : dir.text.toList.head? = some '/'
    · rw [if_pos hroot]
      decide +kernel
    · rw [if_neg hroot]
      decide +kernel
  -- A walk that starts at a point must not be lost behind it, as in `.//x`.
  have hlost : dir.start = ⟨"."⟩ → (dir.pieces.dropWhile (· = ".")).head? ≠ some "" := by
    intro hpoint he
    by_cases hlead : dir.lead = []
    · simp [Path.losesWay, hlead, he] at hway
    · rw [Path.start, if_neg hlead] at hpoint
      exact absurd (congrArg Path.text hpoint) (by decide)
  obtain ⟨q, hq, hsub, hfind⟩ := find_plain hstart hpieces hlost hwalk h.directory hfits
    (by rw [hstem, htext])
  rw [hstem, ← htext] at hsub
  refine ⟨q, hq, fun r hr hentry => ?_, hfind⟩
  have hnames : ∀ s ∈ r, IsName s := fun s hs =>
    h.proper.names _ hentry s (List.mem_append_right l hs)
  have hsteps : ∀ s ∈ r, IsStep s := fun s hs => (hnames s hs).step
  refine (h.fits r hentry).of_sublist (text_down_ne hnames hr _) ?_
  obtain ⟨s, r, rfl⟩ := List.exists_cons_of_ne_nil hr
  rw [Path.text_down hsteps hr,
    Path.text_join_relative (Path.head?_joinWith (hsteps s List.mem_cons_self) r),
    String.toList_append, String.toList_append]
  exact hsub.append_right _

end Searched

/-- The files of the extension, in the order of their paths from a directory. -/
def sortedFiles (t : FileTree) (q : Path) (l : Location) (extension : String) :
    List (Location × ByteArray) :=
  (t.filesWith l extension).mergeSort fun x y =>
    (x.1.foldl Path.child q).precedes (y.1.foldl Path.child q)

theorem perm_sortedFiles (t : FileTree) (q : Path) (l : Location) (extension : String) :
    (t.sortedFiles q l extension).Perm (t.filesWith l extension) := List.mergeSort_perm ..

/-- They are what is found from a directory that is reached. -/
theorem Searched.scriptFiles_sorted (h : t.Searched dir l extension) {q : Path} (hq : t.Reached q l)
    (hfits : ∀ r, r ≠ [] → t.entry? (l ++ r) ≠ none → Fits (q.ground.down r))
    (hfind : ∀ rest, t.find (dir.pieces.map .plain ++ rest) dir.start = t.find rest q) :
    t.scriptFiles dir extension =
      .ok ((t.sortedFiles q l extension).map fun x => x.1.foldl Path.child q) := by
  have hnames : (fun x : Location × ByteArray =>
      Wildcard.covers (endsInExtension extension) (nameOf x.1).toList) =
      fun x => hasExtension extension (nameOf x.1) :=
    funext fun x => covers_endsInExtension extension (nameOf x.1)
  have hsort : (t.sortedFiles q l extension).map (fun x => x.1.foldl Path.child q) =
      ((t.filesWith l extension).map fun x => x.1.foldl Path.child q).mergeSort Path.precedes :=
    List.map_mergeSort fun _ _ _ _ => rfl
  rw [h.scriptFiles_eq, hfind, find_files hq h.proper hfits, hnames, hsort]
  rfl

/-- A file below a directory is loaded as the script that its name and its text say. -/
theorem loadScript_below (hq : t.Reached q l) (ht : t.Proper) {r : Location} {bytes : ByteArray}
    (hr : r ≠ []) (hentry : t.entry? (l ++ r) = some (.file bytes))
    (hfits : Fits (q.ground.down r)) :
    t.loadScript (r.foldl Path.child q) extension = .ok s ↔ s.path = some (r.foldl Path.child q) ∧
      String.fromUTF8? bytes = some s.source ∧
      scriptIdentity? (nameOf r) extension = some (s.id, s.kind) := by
  have hsome : t.entry? (l ++ r) ≠ none := by simp [hentry]
  have hlook := look_of_locate (hq.locate_below ht hr hsome hfits) hentry
  have hname : (r.foldl Path.child q).fileName? = some (nameOf r) := by
    have hnames : ∀ s ∈ r, IsName s := fun s hs => ht.names _ hsome s (List.mem_append_right l hs)
    have hsteps := Path.steps_down (fun s hs => (hnames s hs).part) q.ground
    rw [← Path.foldl_child hr hnames] at hsteps
    obtain ⟨init, s, rfl⟩ := List.eq_nil_or_concat' r |>.resolve_left hr
    rw [List.map_append, ← List.append_assoc] at hsteps
    rw [Path.fileName?_of_steps hsteps, nameOf, List.getLast?_concat]
    rfl
  rw [loadScript_eq_ok, readText_eq_ok, hlook, hname]
  simp

/-- All scripts of a directory are found.  If each file whose name ends in the extension says an id
and has a text, there is one script for each of them; otherwise nothing is found but a refusal. -/
theorem Searched.discoverScripts_files (h : t.Searched dir l extension)
    (hway : dir.losesWay = false) : ((∃ scripts, t.discoverScripts dir extension = .ok scripts) ↔
      ∀ x ∈ t.filesWith l extension, (scriptIdentity? (nameOf x.1) extension).isSome ∧
        (String.fromUTF8? x.2).isSome) ∧
    ∀ scripts, t.discoverScripts dir extension = .ok scripts →
      ∃ files, files.Perm (t.filesWith l extension) ∧
        List.Forall₂ (t.FoundIn l extension) files scripts := by
  obtain ⟨q, hq, hfits, hfind⟩ := h.exists_reached hway
  let pathOf (x : Location × ByteArray) : Path := x.1.foldl Path.child q
  let files := t.sortedFiles q l extension
  have hperm : files.Perm (t.filesWith l extension) := perm_sortedFiles t q l extension
  have hfound : t.scriptFiles dir extension = .ok (files.map pathOf) :=
    h.scriptFiles_sorted hq hfits hfind
  -- However the path to it is written, a file below is read as the entry that it is.
  have hload : ∀ x ∈ files, ∀ s, t.loadScript (pathOf x) extension = .ok s ↔
      s.path = some (pathOf x) ∧ String.fromUTF8? x.2 = some s.source ∧
        scriptIdentity? (nameOf x.1) extension = some (s.id, s.kind) := by
    rintro ⟨r, bytes⟩ hx s
    obtain ⟨hr, hentry⟩ := mem_filesBelow.mp (List.mem_filter.mp (hperm.subset hx)).1
    exact loadScript_below hq h.proper hr hentry (hfits r hr (by simp [hentry]))
  have hscripts : ∀ scripts, t.discoverScripts dir extension = .ok scripts ↔
      files.map (fun x => t.loadScript (pathOf x) extension) = scripts.map .ok := by
    intro scripts
    rw [discoverScripts_eq_ok]
    constructor
    · rintro ⟨ps, hps, hmap⟩
      obtain rfl := Except.ok.inj (hfound.symm.trans hps)
      rwa [List.map_map] at hmap
    · exact fun hmap => ⟨_, hfound, by rwa [List.map_map]⟩
  refine ⟨⟨fun ⟨scripts, hs⟩ x hx => ?_, fun hall => ?_⟩, fun scripts hs => ⟨files, hperm, ?_⟩⟩
  · have hx : x ∈ files := hperm.symm.subset hx
    obtain ⟨s, -, hok⟩ := List.mem_map.mp ((hscripts scripts).mp hs ▸ List.mem_map_of_mem hx)
    obtain ⟨-, hsource, hidentity⟩ := (hload x hx s).mp hok.symm
    rw [hsource, hidentity]
    exact ⟨rfl, rfl⟩
  · have hsome : ∀ x ∈ files, ∃ s, t.loadScript (pathOf x) extension = .ok s := by
      intro x hx
      obtain ⟨hidentity, hsource⟩ := hall x (hperm.subset hx)
      obtain ⟨⟨id, kind⟩, hidentity⟩ := Option.isSome_iff_exists.mp hidentity
      obtain ⟨source, hsource⟩ := Option.isSome_iff_exists.mp hsource
      exact ⟨⟨id, kind, source, some (pathOf x)⟩, (hload x hx _).mpr ⟨rfl, hsource, hidentity⟩⟩
    obtain ⟨scripts, hs⟩ := exists_map_ok hsome
    exact ⟨scripts, (hscripts scripts).mpr hs⟩
  · have hpairs :=
      (List.forall₂_and_left files scripts).mpr ⟨fun x hx => hx,
        map_eq_map_ok.mp ((hscripts scripts).mp hs)⟩
    refine hpairs.imp fun x s ⟨hx, hok⟩ => ?_
    obtain ⟨hpath, hsource, hidentity⟩ := (hload x hx s).mp hok
    obtain ⟨hr, hentry⟩ := mem_filesBelow.mp (List.mem_filter.mp (hperm.subset hx)).1
    have hsome : t.entry? (l ++ x.1) ≠ none := by simp [hentry]
    exact ⟨hidentity, hsource, pathOf x, hpath,
      hq.locate_below h.proper hr hsome (hfits x.1 hr hsome)⟩

/-- **Discovery finds exactly the scripts**, where directory and extension stand for themselves.  No
two names say the same id and kind.  Whatever is searched for, only scripts are found, in the order
of their paths.  If neither text has a wildcard in it, and the path of the directory does not lose
its way, one is found for each file below it that has the extension, if all of these say an id and
have a text, and otherwise the search is refused. -/
theorem discoverScripts_exact (t : FileTree) (dir : Path) (extension : String) :
    (∀ (name name' : String) (answer : String × ScriptKind),
      scriptIdentity? name extension = some answer →
      scriptIdentity? name' extension = some answer → name = name') ∧
    (∀ scripts, t.discoverScripts dir extension = .ok scripts →
      InPathOrder scripts ∧ ∀ s ∈ scripts, t.IsScript extension s) ∧
    ∀ l, t.Searched dir l extension →
      if dir.losesWay then t.discoverScripts dir extension = .ok []
      else
        ((∃ scripts, t.discoverScripts dir extension = .ok scripts) ↔
          ∀ x ∈ t.filesWith l extension, (scriptIdentity? (nameOf x.1) extension).isSome ∧
            (String.fromUTF8? x.2).isSome) ∧
        ∀ scripts, t.discoverScripts dir extension = .ok scripts →
          ∃ files, files.Perm (t.filesWith l extension) ∧
            List.Forall₂ (t.FoundIn l extension) files scripts := by
  refine ⟨fun _ _ _ => scriptIdentity?_inj, fun _ => sound_discoverScripts, fun l h => ?_⟩
  cases hway : dir.losesWay with
  | true => exact h.discoverScripts_lost hway
  | false => exact h.discoverScripts_files hway

/-- A directory with a script of its own, and with another one further down. -/
def nested : FileTree :=
  ((((FileTree.empty []).put ["s"] .directory).put ["s", "n"] .directory).put ["s", "b.p"]
    (.file "println 'b'".toUTF8)).put ["s", "n", "a.init.p"] (.file "println 'a'".toUTF8)

theorem entry?_nested (m : Location) : nested.entry? m =
    if m = ["s", "n", "a.init.p"] then some (.file "println 'a'".toUTF8)
    else if m = ["s", "b.p"] then some (.file "println 'b'".toUTF8)
    else if m = ["s", "n"] ∨ m = ["s"] ∨ m = [] then some .directory
    else none := by
  rw [nested, entry?_put _ (by decide), entry?_put _ (by decide), entry?_put _ (by decide),
    entry?_put _ (by decide), entry?_empty]
  split_ifs <;> simp_all

theorem searched_nested : nested.Searched ⟨"s"⟩ ["s"] "p" where
  proper := by
    have hs := Proper.empty.put (k := []) (s := "s") (by decide) rfl (by decide +kernel) .directory
    have hn := hs.put (k := ["s"]) (s := "n") (by decide) (by decide +kernel)
      (by decide +kernel) .directory
    have hb := hn.put (k := ["s"]) (s := "b.p") (by decide) (by decide +kernel) (by decide +kernel)
      (.file "println 'b'".toUTF8)
    exact hb.put (k := ["s", "n"]) (s := "a.init.p") (by decide) (by decide +kernel)
      (by decide +kernel) _
  locate := by decide +kernel
  directory := by rw [entry?_nested]; decide
  literal := by decide
  bare := by decide
  literal_extension := by decide
  fits := by
    intro r hr
    rw [entry?_nested, List.singleton_append] at hr
    simp only [List.cons.injEq, true_and, reduceCtorEq, or_false] at hr
    split_ifs at hr with h₁ h₂ h₃
    · rw [h₁]
      decide +kernel
    · rw [h₂]
      decide +kernel
    · rcases h₃ with rfl | rfl <;> decide +kernel
    · exact absurd rfl hr

/-- The theorem for a directory with two scripts, of which one is for invocations. -/
theorem discoverScripts_exact_nested :
    nested.Searched ⟨"s"⟩ ["s"] "p" ∧ ∃ scripts, nested.discoverScripts ⟨"s"⟩ "p" = .ok scripts ∧
      ∃ files, files.Perm (nested.filesWith ["s"] "p") ∧
        List.Forall₂ (nested.FoundIn ["s"] "p") files scripts := by
  obtain ⟨-, -, hexact⟩ := discoverScripts_exact nested ⟨"s"⟩ "p"
  have hway : Path.losesWay ⟨"s"⟩ = false := by decide +kernel
  have hfiles := hexact ["s"] searched_nested
  rw [hway] at hfiles
  obtain ⟨hiff, hscripts⟩ := hfiles
  have hall : ∀ x ∈ nested.filesWith ["s"] "p", (scriptIdentity? (nameOf x.1) "p").isSome ∧
      (String.fromUTF8? x.2).isSome := by
    rintro ⟨r, bytes⟩ hx
    obtain ⟨-, hentry⟩ := mem_filesBelow.mp (List.mem_filter.mp hx).1
    rw [entry?_nested, List.singleton_append] at hentry
    simp only [List.cons.injEq, true_and] at hentry
    split_ifs at hentry with h₁ h₂
    · cases hentry
      rw [h₁, fromUTF8?_toUTF8]
      exact ⟨by decide +kernel, rfl⟩
    · cases hentry
      rw [h₂, fromUTF8?_toUTF8]
      exact ⟨by decide +kernel, rfl⟩
    · cases hentry
  obtain ⟨scripts, hs⟩ := hiff.mpr hall
  exact ⟨searched_nested, scripts, hs, hscripts scripts hs⟩

end FileTree

end ScriptPlugins
