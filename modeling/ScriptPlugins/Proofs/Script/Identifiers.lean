import ScriptPlugins.Batch.Owners
import ScriptPlugins.Proofs.Script.Names

/-!
# Identifiers — the three names of a script are three kinds of names

Whatever its id is, the names of a script are identifiers.  The names of the classes of bodies begin
with one small letter and those of preambles with another, while no adapter's name begins with a
small letter.  So a name of one kind is never a name of another kind, be it of the same script or
not.
-/

namespace ScriptPlugins

/-! ## 1. Identifiers -/

/-- What may stand in an identifier: a letter or digit of ASCII, or `_`. -/
def isIdentifierPart (c : Char) : Bool := isAsciiAlphanumeric c ∨ c = '_'

/-- A name of such characters that does not begin with a digit. -/
structure IsIdentifier (s : String) : Prop where
  ne_empty : s ≠ ""
  parts : ∀ c ∈ s.toList, isIdentifierPart c = true
  head : ∀ c ∈ s.toList.head?, c.isDigit = false

/-- An identifier names an entry of a directory, and leads down. -/
theorem IsIdentifier.isPart {s : String} (h : IsIdentifier s) : IsPart s where
  ne_empty := h.ne_empty
  no_slash := fun hm => absurd (h.parts '/' hm) (by decide)
  ne_here := by
    rintro rfl
    exact absurd (h.parts '.' (by decide)) (by decide)
  ne_up := by
    rintro rfl
    exact absurd (h.parts '.' (by decide)) (by decide)

theorem isIdentifierPart_of_isAlphanum {c : Char} (h : c.isAlphanum = true) :
    isIdentifierPart c = true := by
  rw [isIdentifierPart, decide_eq_true_eq]
  exact .inl h

/-- A capital is a letter if the character was one, and it is not small. -/
theorem isAlphanum_toUpper {c : Char} (h : c.isAlphanum = true) :
    c.toUpper.isAlphanum = true ∧ c.toUpper.isLower = false := by
  exact of_ascii (P := fun c => c.isAlphanum = true →
    c.toUpper.isAlphanum = true ∧ c.toUpper.isLower = false) (by decide +kernel)
      (lt_of_isAlphanum h) h

theorem head?_leadSafely (cs : List Char) : ∀ c ∈ (leadSafely cs).head?, c.isDigit = false := by
  intro c hc
  rw [leadSafely] at hc
  split at hc
  · cases hc
    decide
  next hnot =>
    rw [Option.mem_def.mp hc] at hnot
    simpa using hnot

theorem isIdentifierPart_identifier (id : String) :
    ∀ c ∈ (identifier id).toList, isIdentifierPart c = true := by
  intro c hc
  rw [identifier, String.toList_ofList] at hc
  rcases mem_leadSafely hc with rfl | hc
  · decide
  · obtain ⟨d, -, rfl⟩ := List.mem_map.mp hc
    split
    next hd => exact decide_eq_true hd
    next => decide

/-- What is put in front of an identifier begins it. -/
theorem isIdentifier_append {c : Char} {cs : List Char} {s : String}
    (hc : c.isDigit = false) (hcs : (c :: cs).all isIdentifierPart = true)
    (hs : ∀ d ∈ s.toList, isIdentifierPart d = true) :
      IsIdentifier (String.ofList (c :: cs) ++ s) where
  ne_empty := by
    intro h
    have htext := congrArg String.toList h
    simp at htext
  parts := by
    intro d hd
    rw [String.toList_append, String.toList_ofList, List.mem_append] at hd
    exact hd.elim (List.all_eq_true.mp hcs d) (hs d)
  head := by
    intro d hd
    rw [String.toList_append, String.toList_ofList] at hd
    cases hd
    exact hc

namespace Script

variable (s s' : Script)

/-! ## 2. Names -/

theorem isIdentifier_className : IsIdentifier s.className :=
  isIdentifier_append (c := 'p') (by decide) (by decide) (isIdentifierPart_identifier s.id)

theorem isIdentifier_preambleClassName : IsIdentifier s.preambleClassName :=
  isIdentifier_append (c := 'c') (by decide) (by decide) (isIdentifierPart_identifier s.id)

/-- The words of an id with capitals, run together. -/
def capitalized : List Char :=
  (Text.splitOn (!isAsciiAlphanumeric ·) s.id.toList).flatMap capitalize

theorem adapterName_eq : s.adapterName = String.ofList (leadSafely s.capitalized) ++ "Plugin" := rfl

theorem isAlphanum_of_mem_word {word : List Char}
    (hword : word ∈ Text.splitOn (!isAsciiAlphanumeric ·) s.id.toList) :
    ∀ c ∈ word, c.isAlphanum = true := by
  intro c hc
  simpa [isAsciiAlphanumeric] using Text.sep_eq_false_of_mem hword hc

theorem isAlphanum_capitalized : ∀ c ∈ s.capitalized, c.isAlphanum = true := by
  intro c hc
  obtain ⟨word, hword, hc⟩ := List.mem_flatMap.mp hc
  have hall := s.isAlphanum_of_mem_word hword
  cases word with
  | nil => cases hc
  | cons d word =>
    rcases List.mem_cons.mp hc with rfl | hc
    · exact (isAlphanum_toUpper (hall d List.mem_cons_self)).1
    · exact hall c (List.mem_cons_of_mem d hc)

/-- The first word that is not empty begins with no small letter. -/
theorem head?_capitalized : ∀ c ∈ s.capitalized.head?, c.isLower = false := by
  have hwords : ∀ words : List (List Char), (∀ word ∈ words, ∀ c ∈ word, c.isAlphanum = true) →
      ∀ c ∈ (words.flatMap capitalize).head?, c.isLower = false := by
    intro words hall
    -- Words without characters leave nothing, so the first other word decides.
    induction words with
    | nil => exact nofun
    | cons word words ih =>
      rw [List.flatMap_cons]
      cases word with
      | nil => exact ih fun word hword => hall word (List.mem_cons_of_mem _ hword)
      | cons d word =>
        intro c hc
        cases hc
        exact (isAlphanum_toUpper (hall _ List.mem_cons_self d List.mem_cons_self)).2
  exact hwords _ fun word hword => s.isAlphanum_of_mem_word hword

theorem isIdentifier_adapterName : IsIdentifier s.adapterName where
  ne_empty := by
    intro h
    have htext := congrArg String.toList h
    simp [adapterName_eq] at htext
  parts := by
    intro c hc
    rw [adapterName_eq, String.toList_append, String.toList_ofList, List.mem_append] at hc
    rcases hc with hc | hc
    · rcases mem_leadSafely hc with rfl | hc
      · decide
      · exact isIdentifierPart_of_isAlphanum (s.isAlphanum_capitalized c hc)
    · have hplugin : "Plugin".toList.all isIdentifierPart = true := by decide
      exact List.all_eq_true.mp hplugin c hc
  head := by
    intro c hc
    rw [adapterName_eq, String.toList_append, String.toList_ofList, List.head?_append] at hc
    cases hlead : (leadSafely s.capitalized).head? with
    | none =>
      rw [hlead] at hc
      cases hc
      decide
    | some d =>
      rw [hlead] at hc
      cases hc
      exact head?_leadSafely _ _ hlead

/-- All names of a script are identifiers, whatever its id is. -/
theorem isIdentifier_of_mem_names : ∀ n ∈ s.names, IsIdentifier n := by
  intro n hn
  simp only [names, List.mem_cons, List.not_mem_nil, or_false] at hn
  rcases hn with rfl | rfl | rfl
  · exact s.isIdentifier_className
  · exact s.isIdentifier_preambleClassName
  · exact s.isIdentifier_adapterName

/-! ## 3. Kinds of names -/

theorem head?_className : s.className.toList.head? = some 'p' := by
  rw [className, String.toList_append]
  rfl

theorem head?_preambleClassName : s.preambleClassName.toList.head? = some 'c' := by
  rw [preambleClassName, String.toList_append]
  rfl

theorem head?_adapterName : ∀ c ∈ s.adapterName.toList.head?, c.isLower = false := by
  intro c hc
  rw [adapterName_eq, String.toList_append, String.toList_ofList, List.head?_append,
    leadSafely] at hc
  split at hc
  · cases hc
    decide
  · cases hhead : s.capitalized.head? with
    | none =>
      rw [hhead] at hc
      cases hc
      decide
    | some d =>
      rw [hhead] at hc
      cases hc
      exact s.head?_capitalized _ hhead

theorem className_ne_preambleClassName : s.className ≠ s'.preambleClassName := by
  intro h
  have hhead := s.head?_className
  rw [h, head?_preambleClassName] at hhead
  cases hhead

theorem className_ne_adapterName : s.className ≠ s'.adapterName := by
  intro h
  have hsmall := s'.head?_adapterName 'p' (h ▸ s.head?_className)
  revert hsmall
  decide

theorem preambleClassName_ne_adapterName : s.preambleClassName ≠ s'.adapterName := by
  intro h
  have hsmall := s'.head?_adapterName 'c' (h ▸ s.head?_preambleClassName)
  revert hsmall
  decide

theorem nodup_names : s.names.Nodup := by
  simp [names, className_ne_preambleClassName, className_ne_adapterName,
    preambleClassName_ne_adapterName]

end Script

end ScriptPlugins
