import ScriptPlugins.Discovery.Pattern
import ScriptPlugins.Proofs.Files.Paths

/-!
# Patterns — what texts without wildcards say as patterns

A text without wildcards stands for itself.  So the pattern for the files below such a directory
that have such an extension walks the pieces between the slashes of the directory one by one, then
goes to any depth, and there asks of a name that it ends in the extension.
-/

namespace ScriptPlugins

/-! ## 1. Names -/

/-- A text that has no wildcard in it. -/
def IsLiteral (cs : List Char) : Prop := ∀ c ∈ cs, c ≠ '?' ∧ c ≠ '*' ∧ c ≠ '['

instance (cs : List Char) : Decidable (IsLiteral cs) :=
  List.decidableBAll ..

/-- Whether a name ends in a point and an extension. -/
def hasExtension (extension name : String) : Bool :=
  ('.' :: extension.toList).isSuffixOf name.toList

theorem hasExtension_iff {extension name : String} :
    hasExtension extension name = true ↔ '.' :: extension.toList <:+ name.toList :=
  List.isSuffixOf_iff_suffix

namespace Wildcard

variable {cs ds : List Char}

theorem readAll_literal (h : IsLiteral cs) : readAll cs = some (cs.map .char) := by
  induction cs with
  | nil => rw [readAll, List.map_nil]
  | cons c cs ih =>
    obtain ⟨hany, hrun, hclass⟩ := h c List.mem_cons_self
    rw [readAll, ih fun d hd => h d (List.mem_cons_of_mem c hd), Option.map_some, List.map_cons]
    · exact hany
    · exact fun _ he _ => hrun he
    · exact hrun
    · exact hclass

theorem plain?_chars (cs : List Char) : plain? (cs.map .char) = some cs := by
  induction cs with
  | nil => rfl
  | cons c cs ih => rw [List.map_cons, plain?, ih, Option.map_some]

/-- A text without wildcards stands for itself alone. -/
theorem covers_chars : covers (cs.map .char) ds = true ↔ cs = ds := by
  induction cs generalizing ds with
  | nil => rw [List.map_nil, covers_nil, List.isEmpty_iff, eq_comm]
  | cons c cs ih =>
    cases ds with
    | nil => simp [covers_cons_nil]
    | cons d ds =>
      have hchar : Wildcard.char c ≠ run := nofun
      rw [List.map_cons, covers_cons_cons _ _ _ hchar, Bool.and_eq_true, ih, accepts,
        decide_eq_true_eq, List.cons.injEq, eq_comm]

/-- Behind a star it stands for all that end in it. -/
theorem covers_run_chars : covers (run :: cs.map .char) ds = true ↔ cs <:+ ds := by
  induction ds with
  | nil => rw [covers_run_nil, covers_chars, List.suffix_nil]
  | cons d ds ih => rw [covers_run_cons, Bool.or_eq_true, covers_chars, ih, List.suffix_cons_iff]

end Wildcard

theorem Segment.ofText?_literal {s : String} (h : IsLiteral s.toList) :
    Segment.ofText? s.toList = some (.plain s) := by
  have hstars : s.toList ≠ ['*', '*'] := fun he => (h '*' (by rw [he]; decide)).2.1 rfl
  simp only [Segment.ofText?, if_neg hstars, Wildcard.readAll_literal h, Wildcard.plain?_chars,
    Option.bind_eq_bind, Option.bind_some, String.ofList_toList]

/-! ## 2. The pieces of a directory -/

/-- Some texts with a slash behind each. -/
def slashed (names : List String) : List Char := names.flatMap fun s => s.toList ++ ['/']

@[simp] theorem slashed_nil : slashed [] = [] := rfl

@[simp] theorem slashed_cons (s : String) (names : List String) :
    slashed (s :: names) = s.toList ++ '/' :: slashed names := by
  rw [slashed, List.flatMap_cons, List.append_assoc]
  rfl

theorem mem_slashed {names : List String} {s : String} {c : Char} (hs : s ∈ names)
    (hc : c ∈ s.toList) : c ∈ slashed names :=
  List.mem_flatMap.mpr ⟨s, hs, List.mem_append_left _ hc⟩

theorem splitOn_slashed {names : List String} (h : ∀ s ∈ names, '/' ∉ s.toList) (cs : List Char) :
    Text.splitOn (· = '/') (slashed names ++ cs) =
      names.map String.toList ++ Text.splitOn (· = '/') cs := by
  induction names with
  | nil => rfl
  | cons s names ih =>
    have hs := Text.splitOn_slash (h s List.mem_cons_self)
    rw [slashed_cons, List.append_assoc, List.cons_append, Text.splitOn_append (by simp), hs,
      ih fun s' hs' => h s' (List.mem_cons_of_mem s hs'), List.map_cons, List.cons_append]
    rfl

/-- What ends in a slash has one behind each of its parts. -/
theorem slashed_splitOn (cs : List Char) :
    slashed ((Text.splitOn (· = '/') cs).map String.ofList) = cs ++ ['/'] := by
  induction cs with
  | nil => rfl
  | cons c cs ih =>
    obtain ⟨part, parts, hparts⟩ := List.exists_cons_of_ne_nil (Text.splitOn_ne_nil (· = '/') cs)
    rw [hparts, List.map_cons, slashed_cons, String.toList_ofList] at ih
    rw [Text.splitOn, hparts]
    split
    next hc =>
      rw [List.map_cons, List.map_cons, slashed_cons, slashed_cons, String.toList_ofList,
        String.toList_ofList, ih, decide_eq_true_eq.mp hc]
      rfl
    next hc =>
      rw [List.map_cons, slashed_cons, String.toList_ofList, List.cons_append, ih, List.cons_append]

namespace Path

variable {p : Path}

/-- The slash that a path may begin with. -/
def lead (p : Path) : List Char := if p.text.toList.head? = some '/' then ['/'] else []

/-- Where a pattern for a path begins. -/
def start (p : Path) : Path := ⟨if p.lead = [] then "." else "/"⟩

/-- What stands in front of the other slashes of a directory, if its text is made to end in one. -/
def pieces (p : Path) : List String :=
  ((Text.splitOn (· = '/') ((p.join "").text.toList.drop p.lead.length)).dropLast).map String.ofList

theorem head?_text_join_empty (p : Path) : (p.join "").text.toList.head? = p.text.toList.head? := by
  rw [text_join_empty]
  split
  next => rfl
  next h =>
    have hne : p.text.toList ≠ [] := fun he => h (.inl (String.toList_eq_nil_iff.mp he))
    rw [String.toList_append, List.head?_append, List.head?_eq_some_head hne, Option.some_or]

/-- **A directory is its pieces, with a slash behind each**, and the slash that it may begin
with. -/
theorem text_join_empty_eq (hp : p.text ≠ "") :
    (p.join "").text.toList = p.lead ++ slashed p.pieces ∧ ∀ s ∈ p.pieces, '/' ∉ s.toList := by
  -- Behind its first slash the text is empty, or it ends in a slash, too.
  obtain ⟨rest, hrest, hends⟩ : ∃ rest, (p.join "").text.toList = p.lead ++ rest ∧
      (rest = [] ∨ ∃ cs, rest = cs ++ ['/']) := by
    obtain ⟨cs, hcs⟩ := eq_append_slash (endsInSlash_join_empty hp)
    have hhead := head?_text_join_empty p
    unfold lead
    split
    next h =>
      rw [h, hcs] at hhead
      cases cs with
      | nil => exact ⟨[], hcs, .inl rfl⟩
      | cons c cs =>
        have hc : c = '/' := Option.some.inj hhead
        exact ⟨cs ++ ['/'], by rw [hcs, hc]; rfl, .inr ⟨cs, rfl⟩⟩
    next => exact ⟨cs ++ ['/'], hcs, .inr ⟨cs, rfl⟩⟩
  have hdrop : p.pieces = ((Text.splitOn (· = '/') rest).dropLast).map String.ofList := by
    rw [pieces, hrest, List.drop_left]
  rw [hrest, hdrop]
  rcases hends with rfl | ⟨cs, rfl⟩
  · exact ⟨rfl, fun s hs => nomatch hs⟩
  · have hsplit : Text.splitOn (· = '/') (cs ++ ['/']) = Text.splitOn (· = '/') cs ++ [[]] :=
      Text.splitOn_append (by simp) cs []
    rw [hsplit, List.dropLast_concat, slashed_splitOn]
    refine ⟨rfl, fun s hs hmem => ?_⟩
    obtain ⟨part, hpart, rfl⟩ := List.mem_map.mp hs
    rw [String.toList_ofList] at hmem
    simpa using Text.sep_eq_false_of_mem hpart hmem

/-- Whether an empty piece stands behind the points that a path begins with, as in `.//x`. -/
def losesWay (p : Path) : Bool := p.lead = [] ∧ (p.pieces.dropWhile (· = ".")).head? = some ""

theorem partsOf_slashed (names : List String) :
    partsOf (slashed names) = names.flatMap fun s => partsOf s.toList := by
  induction names with
  | nil => rfl
  | cons s names ih => rw [slashed_cons, partsOf_append_slash, ih, List.flatMap_cons]

/-- A directory leads where its pieces lead one after the other. -/
theorem steps_pieces (hp : p.text ≠ "") : p.steps =
    (if p.lead = [] then [] else [.root]) ++ p.pieces.flatMap fun s => partsOf s.toList := by
  rw [← steps_join_empty, steps_eq, head?_text_join_empty, (text_join_empty_eq hp).1,
    ← partsOf_slashed]
  unfold lead
  by_cases h : p.text.toList.head? = some '/'
  · rw [if_pos h, if_pos h, if_neg (List.cons_ne_nil _ _)]
    exact congrArg (Component.root :: ·) (partsOf_append_slash [] _)
  · rw [if_neg h, if_neg h, if_pos rfl]
    rfl

theorem literal_of_mem_pieces (hp : p.text ≠ "") (h : IsLiteral p.text.toList) :
    ∀ s ∈ p.pieces, IsLiteral s.toList := by
  intro s hs c hc
  have hmem : c ∈ (p.join "").text.toList := by
    rw [(text_join_empty_eq hp).1]
    exact List.mem_append_right _ (mem_slashed hs hc)
  rw [text_join_empty] at hmem
  split at hmem
  next => exact h c hmem
  next =>
    rw [String.toList_append] at hmem
    rcases List.mem_append.mp hmem with hmem | hmem
    · exact h c hmem
    · rw [List.mem_singleton.mp hmem]
      decide

end Path

/-! ## 3. The pattern for the files below a directory -/

/-- What the pattern asks of a name. -/
def endsInExtension (extension : String) : List Wildcard :=
  .run :: ('.' :: extension.toList).map .char

theorem covers_endsInExtension (extension name : String) :
    Wildcard.covers (endsInExtension extension) name.toList = hasExtension extension name := by
  rw [Bool.eq_iff_iff, endsInExtension, Wildcard.covers_run_chars, hasExtension_iff]

theorem Segment.ofText?_star {extension : String} (h : IsLiteral extension.toList) :
    Segment.ofText? ('*' :: '.' :: extension.toList) =
      some (.wild (endsInExtension extension)) := by
  have hpoint : IsLiteral ('.' :: extension.toList) := by
    intro c hc
    rcases List.mem_cons.mp hc with rfl | hc
    · decide
    · exact h c hc
  have hread : Wildcard.readAll ('*' :: '.' :: extension.toList) =
      some (endsInExtension extension) := by
    rw [Wildcard.readAll, Wildcard.readAll_literal hpoint]
    · rfl
    · exact fun _ he => by cases he
  simp only [Segment.ofText?, hread, Option.bind_eq_bind, Option.bind_some]
  rfl

theorem mapM_ofText?_plain {names : List String} (h : ∀ s ∈ names, IsLiteral s.toList) :
    (names.map String.toList).mapM Segment.ofText? = some (names.map .plain) := by
  induction names with
  | nil => rfl
  | cons s names ih =>
    rw [List.map_cons, List.mapM_cons, Segment.ofText?_literal (h s List.mem_cons_self),
      ih fun s' hs' => h s' (List.mem_cons_of_mem s hs')]
    rfl

/-- The text that is read as the pattern. -/
theorem text_below {dir : Path} {extension : String} (hne : dir.text ≠ "")
    (hslash : '/' ∉ extension.toList) : ((dir.join "**").join ("*." ++ extension)).text.toList =
      dir.lead ++ (slashed dir.pieces ++
        ('*' :: '*' :: '/' :: '*' :: '.' :: extension.toList)) := by
  have hstars : IsStep "**" := by decide
  have hends : ¬((dir.join "**").text = "" ∨ (dir.join "**").endsInSlash) := by
    rw [Path.endsInSlash_join hstars]
    exact not_or_intro (Path.text_join_ne hstars dir) Bool.false_ne_true
  have hname : '/' ∉ ("*." ++ extension).toList := by
    rw [String.toList_append]
    simpa using hslash
  rw [Path.text_join hname, if_neg hends, Path.text_join_relative (by decide)]
  simp only [String.toList_append, (Path.text_join_empty_eq hne).1, List.append_assoc]
  rfl

theorem splitOn_below {names : List String} {cs : List Char} (hnames : ∀ s ∈ names, '/' ∉ s.toList)
    (hslash : '/' ∉ cs) :
    Text.splitOn (· = '/') (slashed names ++ ('*' :: '*' :: '/' :: '*' :: '.' :: cs)) =
      names.map String.toList ++ [['*', '*'], '*' :: '.' :: cs] := by
  have hlast : Text.splitOn (· = '/') ('*' :: '.' :: cs) = ['*' :: '.' :: cs] :=
    Text.splitOn_slash (by simpa using hslash)
  have hstars : Text.splitOn (· = '/') (['*', '*'] ++ '/' :: '*' :: '.' :: cs) =
      [['*', '*'], '*' :: '.' :: cs] := by
    rw [Text.splitOn_append (by simp), hlast]
    rfl
  rw [splitOn_slashed hnames]
  exact congrArg _ hstars

/-- A pattern that begins at the root, or at the working directory, and does not end in a slash. -/
theorem Pattern.ofText?_eq {s : String} {front rest : List Char} {segments : List Segment}
    (hs : s.toList = front ++ rest)
    (hfront : front = ['/'] ∨ front = [] ∧ rest.head? ≠ some '/')
    (hlast : s.toList.getLast? ≠ some '/')
    (hsegments : (Text.splitOn (· = '/') rest).mapM Segment.ofText? = some segments) :
    Pattern.ofText? s = some ⟨⟨if front = [] then "." else "/"⟩, segments, false⟩ := by
  unfold Pattern.ofText?
  simp only [hlast, if_false]
  rcases hfront with rfl | ⟨rfl, hhead⟩
  · simp only [hs, List.singleton_append, List.head?_cons, List.tail_cons, if_true, hsegments]
    rfl
  · rw [List.nil_append] at hs
    simp only [hs, hhead, if_false, hsegments]
    rfl

/-- **The pattern for the files below a directory that have an extension**, if neither text has a
wildcard in it: the pieces of the directory, any depth, and a name that ends in the extension. -/
theorem Pattern.ofText?_below {dir : Path} {extension : String} (hne : dir.text ≠ "")
    (hdir : IsLiteral dir.text.toList) (hext : IsLiteral extension.toList)
    (hslash : '/' ∉ extension.toList) :
    Pattern.ofText? ((dir.join "**").join ("*." ++ extension)).text =
      some ⟨dir.start,
        dir.pieces.map .plain ++ [.anyDepth, .wild (endsInExtension extension)], false⟩ := by
  obtain ⟨htext, hpieces⟩ := Path.text_join_empty_eq hne
  have hbelow := text_below hne hslash
  refine Pattern.ofText?_eq hbelow ?_ ?_ ?_
  · by_cases hroot : dir.text.toList.head? = some '/'
    · exact .inl (if_pos hroot)
    · have hlead : dir.lead = [] := if_neg hroot
      have hhead := Path.head?_text_join_empty dir
      have hnil : dir.text.toList ≠ [] := fun he => hne (String.toList_eq_nil_iff.mp he)
      rw [htext, hlead, List.nil_append, List.head?_eq_some_head hnil] at hhead
      rw [List.head?_append, hhead, Option.some_or, ← List.head?_eq_some_head]
      exact .inr ⟨hlead, hroot⟩
  · -- The text ends in the extension, which holds no slash, so the pattern is not one for
    -- directories.
    have hsuffix :
        '.' :: extension.toList <:+ ((dir.join "**").join ("*." ++ extension)).text.toList := by
      rw [hbelow]
      exact ⟨dir.lead ++ (slashed dir.pieces ++ ['*', '*', '/', '*']), by simp⟩
    obtain ⟨front, hfront⟩ := hsuffix
    have hpoint : '.' :: extension.toList ≠ [] := List.cons_ne_nil _ _
    rw [← hfront, List.getLast?_append, List.getLast?_eq_some_getLast hpoint, Option.some_or]
    intro he
    have hmem : '/' ∈ '.' :: extension.toList := Option.some.inj he ▸ List.getLast_mem hpoint
    simp [hslash] at hmem
  · have hany : Segment.ofText? ['*', '*'] = some .anyDepth := rfl
    rw [splitOn_below hpieces hslash, List.mapM_append,
      mapM_ofText?_plain (Path.literal_of_mem_pieces hne hdir)]
    simp only [List.mapM_cons, List.mapM_nil, hany, Segment.ofText?_star hext]
    rfl

end ScriptPlugins
