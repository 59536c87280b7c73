import ScriptPlugins.Files.Tree

/-!
# Paths — paths that go on by steps

A name is a component that leads into a directory and nowhere else, a step one that leads down or
up.  A path that is joined with steps walks as the path did and then by these, and its parent is the
path without the last of them.
-/

namespace ScriptPlugins

/-- A component that can name an entry of a directory. -/
structure IsName (s : String) : Prop where
  ne_empty : s ≠ ""
  no_slash : '/' ∉ s.toList
  ne_here : s ≠ "."
  ne_up : s ≠ ".."
  size : s.utf8ByteSize ≤ FileTree.nameLimit

instance (s : String) : Decidable (IsName s) :=
  decidable_of_iff (s ≠ "" ∧ '/' ∉ s.toList ∧ s ≠ "." ∧ s ≠ ".." ∧
    s.utf8ByteSize ≤ FileTree.nameLimit)
    ⟨fun ⟨h₁, h₂, h₃, h₄, h₅⟩ => ⟨h₁, h₂, h₃, h₄, h₅⟩, fun ⟨h₁, h₂, h₃, h₄, h₅⟩ =>
      ⟨h₁, h₂, h₃, h₄, h₅⟩⟩

/-- A component that leads down, however long it is. -/
structure IsPart (s : String) : Prop where
  ne_empty : s ≠ ""
  no_slash : '/' ∉ s.toList
  ne_here : s ≠ "."
  ne_up : s ≠ ".."

theorem IsName.part {s : String} (h : IsName s) : IsPart s :=
  ⟨h.ne_empty, h.no_slash, h.ne_here, h.ne_up⟩

/-- A component that leads somewhere else: down, or up. -/
structure IsStep (s : String) : Prop where
  ne_empty : s ≠ ""
  no_slash : '/' ∉ s.toList
  ne_here : s ≠ "."

instance (s : String) : Decidable (IsStep s) :=
  decidable_of_iff (s ≠ "" ∧ '/' ∉ s.toList ∧ s ≠ ".")
    ⟨fun ⟨h₁, h₂, h₃⟩ => ⟨h₁, h₂, h₃⟩, fun ⟨h₁, h₂, h₃⟩ => ⟨h₁, h₂, h₃⟩⟩

theorem IsPart.step {s : String} (h : IsPart s) : IsStep s := ⟨h.ne_empty, h.no_slash, h.ne_here⟩

theorem IsName.step {s : String} (h : IsName s) : IsStep s := h.part.step

theorem IsStep.toList_ne_nil {s : String} (h : IsStep s) : s.toList ≠ [] :=
  fun hnil => h.ne_empty (String.toList_eq_nil_iff.mp hnil)

/-! ## 1. Parts between separators -/

namespace Text

theorem splitOn_of_not_mem {sep : Char → Bool} {cs : List Char} (h : ∀ c ∈ cs, sep c = false) :
    splitOn sep cs = [cs] := by
  induction cs with
  | nil => rfl
  | cons c cs ih =>
    rw [splitOn, if_neg (by simp [h c List.mem_cons_self]),
      ih fun d hd => h d (List.mem_cons_of_mem c hd)]

theorem splitOn_slash {cs : List Char} (h : '/' ∉ cs) : splitOn (· = '/') cs = [cs] :=
  splitOn_of_not_mem fun _ hc => decide_eq_false fun he => h (he ▸ hc)

theorem head?_ne_slash {cs : List Char} (h : '/' ∉ cs) : cs.head? ≠ some '/' :=
  fun he => h (List.mem_of_head? he)

theorem splitOn_ne_nil (sep : Char → Bool) (cs : List Char) : splitOn sep cs ≠ [] := by
  cases cs with
  | nil => simp [splitOn]
  | cons c cs =>
    rw [splitOn]
    split
    · simp
    · split <;> simp

/-- No part has a character that separates. -/
theorem sep_eq_false_of_mem {sep : Char → Bool} {cs part : List Char} {c : Char}
    (hp : part ∈ splitOn sep cs) (hc : c ∈ part) : sep c = false := by
  induction cs generalizing part with
  | nil =>
    rw [splitOn, List.mem_singleton] at hp
    subst hp
    cases hc
  | cons d cs ih =>
    rw [splitOn] at hp
    split at hp
    · rcases List.mem_cons.mp hp with rfl | hp
      · cases hc
      · exact ih hp hc
    next hd =>
      split at hp
      next hnil => exact absurd hnil (splitOn_ne_nil sep cs)
      next first rest hcons =>
        rcases List.mem_cons.mp hp with rfl | hp
        · rcases List.mem_cons.mp hc with rfl | hc
          · simpa using hd
          · exact ih (hcons ▸ List.mem_cons_self) hc
        · exact ih (hcons ▸ List.mem_cons_of_mem first hp) hc

theorem splitOn_append {sep : Char → Bool} {c : Char} (hc : sep c) (as bs : List Char) :
    splitOn sep (as ++ c :: bs) = splitOn sep as ++ splitOn sep bs := by
  induction as with
  | nil => rw [List.nil_append, splitOn.eq_def]; simp only [if_pos hc]; rfl
  | cons a as ih =>
    rw [List.cons_append, splitOn, splitOn, ih]
    split
    · rfl
    · cases h : splitOn sep as with
      | nil => exact absurd h (splitOn_ne_nil sep as)
      | cons part parts => rfl

theorem joinWith_cons (sep s t : String) (ss : List String) :
    joinWith sep (s :: t :: ss) = s ++ sep ++ joinWith sep (t :: ss) := by
  rw [joinWith]
  intro h
  cases h

/-- The parts of a text put together again. -/
theorem joinWith_splitOn (cs : List Char) :
    joinWith "/" ((splitOn (· = '/') cs).map String.ofList) = String.ofList cs := by
  induction cs with
  | nil => rfl
  | cons c cs ih =>
    cases hs : splitOn (· = '/') cs with
    | nil => exact absurd hs (splitOn_ne_nil _ cs)
    | cons part parts =>
      rw [hs, List.map_cons] at ih
      rw [splitOn, hs]
      by_cases hc : c = '/'
      · rw [if_pos (by simpa using hc), List.map_cons, List.map_cons, joinWith_cons, ih, hc]
        rw [← String.toList_inj]
        simp
      · rw [if_neg (by simpa using hc), List.map_cons]
        cases parts with
        | nil =>
          rw [List.map_nil, joinWith] at ih ⊢
          rw [← String.toList_inj] at ih ⊢
          simpa using ih
        | cons q qs =>
          rw [List.map_cons, joinWith_cons] at ih ⊢
          rw [← String.toList_inj] at ih ⊢
          simpa using ih

end Text

/-! ## 2. Paths that end in a step -/

namespace Path

theorem text_join {s : String} (hs : '/' ∉ s.toList) (p : Path) :
    (p.join s).text = if p.text = "" ∨ p.endsInSlash then p.text ++ s else p.text ++ "/" ++ s := by
  rw [join, if_neg (Text.head?_ne_slash hs)]
  split <;> rfl

/-- What is put behind a path stands behind its slash. -/
theorem text_join_relative {s : String} (hs : s.toList.head? ≠ some '/') (p : Path) :
    (p.join s).text = (p.join "").text ++ s := by
  have hempty : ("" : String).toList.head? ≠ some '/' := by simp
  rw [join, join, if_neg hs, if_neg hempty]
  split
  · rw [String.append_empty]
  · rw [String.append_empty]

theorem text_join_ne {s : String} (hs : IsStep s) (p : Path) : (p.join s).text ≠ "" := by
  have hne := hs.ne_empty
  rw [text_join hs.no_slash]
  split <;> simp_all

/-- A text that ends in a slash, or that does not. -/
theorem eq_append_slash {p : Path} (h : p.endsInSlash) : ∃ cs, p.text.toList = cs ++ ['/'] := by
  have h : p.text.toList.getLast? = some '/' := by simpa [endsInSlash] using h
  exact List.getLast?_eq_some_iff.mp h

/-- Nothing joined to a path puts a slash at its end, if there is none. -/
theorem text_join_empty (p : Path) :
    (p.join "").text = if p.text = "" ∨ p.endsInSlash then p.text else p.text ++ "/" := by
  have hslash : '/' ∉ ("" : String).toList := by simp
  rw [text_join hslash, String.append_empty, String.append_empty]

theorem endsInSlash_join_empty {p : Path} (hp : p.text ≠ "") : (p.join "").endsInSlash = true := by
  rw [endsInSlash, text_join_empty]
  split
  next h =>
    have hslash := h.resolve_left hp
    rwa [endsInSlash] at hslash
  next =>
    rw [String.toList_append]
    exact decide_eq_true List.getLast?_concat

theorem endsInSlash_join {s : String} (hs : IsStep s) (p : Path) :
    (p.join s).endsInSlash = false := by
  have hne : s.toList ≠ [] := hs.toList_ne_nil
  have hlast : ∀ cs : List Char, (cs ++ s.toList).getLast? ≠ some '/' := by
    intro cs h
    rw [List.getLast?_append, List.getLast?_eq_some_getLast hne, Option.some_or] at h
    exact hs.no_slash (Option.some.inj h ▸ List.getLast_mem hne)
  rw [endsInSlash, text_join hs.no_slash, decide_eq_false_iff_not]
  split
  · rw [String.toList_append]
    exact hlast _
  · rw [String.toList_append]
    exact hlast _

/-- What a text between slashes means. -/
def component (s : String) : Component := ofPart s.toList

theorem component_part {s : String} (hs : IsPart s) : component s = .name s := by
  have h₁ : s.toList ≠ ['.'] := fun h => hs.ne_here (String.toList_inj.mp h)
  have h₂ : s.toList ≠ ['.', '.'] := fun h => hs.ne_up (String.toList_inj.mp h)
  rw [component, ofPart, if_neg h₁, if_neg h₂, String.ofList_toList]

theorem eq_of_component {s n : String} (h : component s = .name n) : s = n := by
  rw [component, ofPart] at h
  split at h
  · cases h
  · split at h
    · cases h
    · rw [← Component.name.inj h, String.ofList_toList]

/-- The components of the parts between slashes. -/
def partsOf (cs : List Char) : List Component :=
  (Text.splitOn (· = '/') cs).filter (· ≠ []) |>.map ofPart

theorem steps_eq (p : Path) : p.steps =
    if p.text.toList.head? = some '/' then .root :: partsOf p.text.toList
    else partsOf p.text.toList := rfl

theorem partsOf_append_slash (as bs : List Char) :
    partsOf (as ++ '/' :: bs) = partsOf as ++ partsOf bs := by
  rw [partsOf, Text.splitOn_append (by simp), List.filter_append, List.map_append]
  rfl

theorem partsOf_step {s : String} (hs : IsStep s) : partsOf s.toList = [component s] := by
  rw [partsOf, Text.splitOn_slash hs.no_slash,
    List.filter_cons_of_pos (by simpa using hs.toList_ne_nil)]
  simp [component]

/-- What is joined to a path is walked behind it. -/
theorem steps_join_relative {s : String} (hs : s.toList.head? ≠ some '/') (p : Path) :
    (p.join s).steps = p.steps ++ partsOf s.toList := by
  have hnil : partsOf [] = [] := rfl
  rw [steps_eq, steps_eq, join, if_neg hs]
  by_cases he : p.text = ""
  · rw [if_pos (Or.inl he), he, String.empty_append]
    exact if_neg hs
  · have hpne : p.text.toList ≠ [] := fun h => he (String.toList_eq_nil_iff.mp h)
    by_cases hslash : p.endsInSlash
    · obtain ⟨cs, hcs⟩ := eq_append_slash hslash
      rw [if_pos (Or.inr hslash), String.toList_append, hcs, List.append_assoc,
        List.singleton_append,
        partsOf_append_slash, partsOf_append_slash, hnil, List.append_nil, List.head?_append,
        List.head?_append, List.head?_cons, List.head?_cons]
      split <;> rfl
    · have hlit : ("/" : String).toList = ['/'] := rfl
      rw [if_neg (not_or_intro he hslash), String.toList_append, String.toList_append, hlit,
        List.append_assoc, List.singleton_append, partsOf_append_slash, List.head?_append,
        List.head?_eq_some_head hpne, Option.some_or]
      split <;> rfl

theorem steps_join_step {s : String} (hs : IsStep s) (p : Path) :
    (p.join s).steps = p.steps ++ [component s] := by
  rw [steps_join_relative (Text.head?_ne_slash hs.no_slash), partsOf_step hs]

theorem steps_join_part {s : String} (hs : IsPart s) (p : Path) :
    (p.join s).steps = p.steps ++ [.name s] := by
  rw [steps_join_step hs.step, component_part hs]

/-- Nothing joined to a path leads where the path does. -/
theorem steps_join_empty (p : Path) : (p.join "").steps = p.steps := by
  have hnil : partsOf [] = [] := rfl
  rw [steps_join_relative (by simp), String.toList_empty, hnil, List.append_nil]

/-- A path that begins with a slash is joined to nothing. -/
theorem join_rooted {s : String} (h : s.toList.head? = some '/') (p : Path) :
    p.join s = ⟨s⟩ := if_pos h

theorem steps_join {s : String} (hs : IsName s) (p : Path) :
    (p.join s).steps = p.steps ++ [.name s] :=
  steps_join_part hs.part p

/-! ## 3. Parents -/

theorem counts_step {s : String} (hs : IsStep s) (first : Bool) : counts first s.toList := by
  have hpoint : s.toList ≠ ['.'] := fun h => hs.ne_here (String.toList_inj.mp h)
  simp [counts, hs.toList_ne_nil, hpoint]

theorem trimParts_cons {s : String} (hs : IsStep s) (parts : List (List Char)) :
    trimParts (s.toList :: parts) = s.toList :: parts := by
  cases parts with
  | nil => rw [trimParts, if_pos (counts_step hs true)]
  | cons part parts =>
    rw [trimParts, if_pos (counts_step hs false)]
    simp

/-- A path that ends in a step, as its parts, last one first. -/
theorem exists_parts {s : String} (hs : IsStep s) (p : Path) :
    ∃ parts, (Text.splitOn (· = '/') (p.join s).text.toList).reverse = s.toList :: parts := by
  have hsplit := Text.splitOn_slash hs.no_slash
  have htext := text_join hs.no_slash p
  by_cases he : p.text = ""
  · rw [if_pos (Or.inl he), he, String.empty_append] at htext
    exact ⟨[], by rw [htext, hsplit]; rfl⟩
  · by_cases hslash : p.endsInSlash
    · obtain ⟨cs, hcs⟩ := eq_append_slash hslash
      rw [if_pos (Or.inr hslash)] at htext
      rw [htext, String.toList_append, hcs, List.append_assoc, List.singleton_append,
        Text.splitOn_append (by simp), hsplit, List.reverse_append]
      exact ⟨_, rfl⟩
    · rw [if_neg (not_or_intro he hslash)] at htext
      have hlit : ("/" : String).toList = ['/'] := rfl
      rw [htext, String.toList_append, String.toList_append, hlit, List.append_assoc,
        List.singleton_append, Text.splitOn_append (by simp), hsplit, List.reverse_append]
      exact ⟨_, rfl⟩

theorem parent?_rooted {p : Path} {cs : List Char} (h : p.text.toList = '/' :: cs) :
    p.parent? = match trimParts ((Text.splitOn (· = '/') cs).reverse) with
      | [] => none
      | _ :: parts => some ⟨"/" ++ Text.joinWith "/"
          ((parent?.trimRooted parts).reverse.map String.ofList)⟩ := by
  unfold parent?
  generalize p.text.toList = text at h ⊢
  subst h
  rfl

theorem parent?_relative {p : Path} (h : p.text.toList.head? ≠ some '/') :
    p.parent? = match trimParts ((Text.splitOn (· = '/') p.text.toList).reverse) with
      | [] => none
      | _ :: parts => some ⟨Text.joinWith "/" ((trimParts parts).reverse.map String.ofList)⟩ := by
  rw [parent?]
  split
  next cs hcs => exact absurd (by rw [hcs]; rfl) h
  next => rfl

theorem toList_join_join {s t : String} (hs : IsStep s) (ht : IsStep t) (p : Path) :
    ((p.join s).join t).text.toList = (p.join s).text.toList ++ '/' :: t.toList := by
  have hslash : ¬(p.join s).endsInSlash := by simp [endsInSlash_join hs]
  have htext := text_join ht.no_slash (p.join s)
  have hlit : ("/" : String).toList = ['/'] := rfl
  rw [if_neg (not_or_intro (text_join_ne hs p) hslash)] at htext
  rw [htext, String.toList_append, String.toList_append, hlit, List.append_assoc,
    List.singleton_append]

/-- The slash that a text begins with stands apart from its parts. -/
theorem exists_parts_rooted {s : String} (hs : IsStep s) {p : Path} {cs : List Char}
    (h : (p.join s).text.toList = '/' :: cs) :
    ∃ parts, (Text.splitOn (· = '/') cs).reverse = s.toList :: parts := by
  obtain ⟨parts, hparts⟩ := exists_parts hs p
  have hcons : Text.splitOn (· = '/') ('/' :: cs) = [] :: Text.splitOn (· = '/') cs := by
    rw [Text.splitOn.eq_def]
    rfl
  rw [h, hcons, List.reverse_cons] at hparts
  cases hr : (Text.splitOn (· = '/') cs).reverse with
  | nil => exact absurd (List.reverse_eq_nil_iff.mp hr) (Text.splitOn_ne_nil _ cs)
  | cons part parts' =>
    rw [hr] at hparts
    exact ⟨parts', by rw [(List.cons.inj hparts).1]⟩

theorem parent?_join_rooted {s t : String} (hs : IsStep s) (ht : IsStep t) {p : Path}
    {cs : List Char} (h : (p.join s).text.toList = '/' :: cs) :
    ((p.join s).join t).parent? = some (p.join s) := by
  obtain ⟨parts, hparts⟩ := exists_parts_rooted hs h
  have hroot : parent?.trimRooted (s.toList :: parts) = s.toList :: parts :=
    List.dropWhile_cons_of_neg (by simp [counts_step hs false])
  have hp : "/" ++ String.ofList cs = (p.join s).text := by
    rw [← String.toList_inj, String.toList_append, h]
    show '/' :: (String.ofList cs).toList = _
    rw [String.toList_ofList]
  rw [parent?_rooted (by rw [toList_join_join hs ht, h, List.cons_append]),
    Text.splitOn_append (by simp), Text.splitOn_slash ht.no_slash, List.reverse_append, hparts,
    List.reverse_singleton, List.singleton_append, trimParts_cons ht]
  simp only [hroot]
  rw [← hparts, List.reverse_reverse, Text.joinWith_splitOn, hp]

/-- The parent of a path that goes on by two steps or more. -/
theorem parent?_join {s t : String} (hs : IsStep s) (ht : IsStep t) (p : Path) :
    ((p.join s).join t).parent? = some (p.join s) := by
  have hlist := toList_join_join hs ht p
  obtain ⟨parts, hparts⟩ := exists_parts hs p
  cases htext : (p.join s).text.toList with
  | nil => exact absurd (String.toList_eq_nil_iff.mp htext) (text_join_ne hs p)
  | cons c cs =>
    by_cases hc : c = '/'
    · exact parent?_join_rooted hs ht (hc ▸ htext)
    · have hhead : ((p.join s).join t).text.toList.head? ≠ some '/' := by
        rw [hlist, htext]
        exact fun h => hc (Option.some.inj h)
      rw [parent?_relative hhead, hlist, Text.splitOn_append (by simp),
        Text.splitOn_slash ht.no_slash, List.reverse_append, hparts, List.reverse_singleton,
        List.singleton_append, trimParts_cons ht]
      simp only [trimParts_cons hs]
      rw [← hparts, List.reverse_reverse, Text.joinWith_splitOn, String.ofList_toList]

/-! ## 4. The order of paths -/

/-- How two components are ordered: by their kind, names by their text. -/
def compareRanks (a b : ScriptPlugins.Component) : Ordering :=
  (compare (Component.rank a).1 (Component.rank b).1).then
    (compare (Component.rank a).2 (Component.rank b).2)

instance : Std.TransCmp compareRanks :=
  inferInstanceAs (Std.TransCmp (compareLex (compareOn fun c => (Component.rank c).1)
    (compareOn fun c => (Component.rank c).2)))

theorem compareComponents_eq (as bs : List ScriptPlugins.Component) :
    compareComponents as bs = List.compareLex compareRanks as bs := by
  induction as generalizing bs with
  | nil => cases bs <;> rfl
  | cons a as ih =>
    cases bs with
    | nil => rfl
    | cons b bs =>
      rw [compareComponents, ih, List.compareLex_cons_cons]
      rfl

theorem precedes_total (p q : Path) : (p.precedes q || q.precedes p) = true := by
  have hswap : List.compareLex compareRanks q.components p.components =
      (List.compareLex compareRanks p.components q.components).swap := Std.OrientedCmp.eq_swap
  rw [precedes, precedes, compareComponents_eq, compareComponents_eq, hswap]
  cases List.compareLex compareRanks p.components q.components <;> rfl

theorem precedes_trans {p q r : Path} (h : p.precedes q = true) (h' : q.precedes r = true) :
    p.precedes r = true := by
  rw [precedes, compareComponents_eq] at h h' ⊢
  exact Std.TransCmp.isLE_trans h h'

theorem sorted_mergeSort_precedes (ps : List Path) :
    (ps.mergeSort precedes).Pairwise fun p q => p.precedes q = true := by
  have htrans (p q r : Path) (h : p.precedes q = true) (h' : q.precedes r = true) :
      p.precedes r = true := precedes_trans h h'
  exact List.pairwise_mergeSort htrans precedes_total ps

end Path

end ScriptPlugins
