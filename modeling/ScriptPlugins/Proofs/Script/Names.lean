import ScriptPlugins.Compiled.ClassText
import ScriptPlugins.Proofs.Files.Room
import ScriptPlugins.Script.Basic

/-!
# Names of scripts — plain text, hardly longer than the id

The names that follow from an id are plain, whatever the id is.  They have at most one character for
each character of the id, and some more.
-/

namespace ScriptPlugins

/-! ## 1. Parts of an id -/

namespace Text

/-- All parts together are no longer than the text. -/
theorem length_splitOn_le (sep : Char → Bool) (cs : List Char) :
    (splitOn sep cs).flatten.length ≤ cs.length := by
  induction cs with
  | nil => simp [splitOn]
  | cons c cs ih =>
    rw [splitOn]
    split
    · rw [List.flatten_cons, List.nil_append, List.length_cons]
      omega
    · split
      next hnil => exact absurd hnil (splitOn_ne_nil sep cs)
      next first rest hcons =>
        rw [hcons] at ih
        rw [List.flatten_cons] at ih ⊢
        rw [List.cons_append, List.length_cons, List.length_cons]
        omega

end Text

theorem mem_leadSafely {cs : List Char} {c : Char} (h : c ∈ leadSafely cs) : c = '_' ∨ c ∈ cs := by
  rw [leadSafely] at h
  split at h
  · exact List.mem_cons.mp h
  · exact .inr h

theorem length_leadSafely_le (cs : List Char) : (leadSafely cs).length ≤ cs.length + 1 := by
  rw [leadSafely]
  split
  · rw [List.length_cons]
  · omega

theorem length_capitalize (cs : List Char) : (capitalize cs).length = cs.length := by
  cases cs <;> rfl

/-- A capitalized word of letters and digits is plain. -/
theorem isPlain_of_mem_capitalize {cs : List Char} (h : ∀ c ∈ cs, c.isAlphanum = true) {c : Char}
    (hc : c ∈ capitalize cs) : isPlain c = true := by
  cases cs with
  | nil => cases hc
  | cons d cs =>
    rcases List.mem_cons.mp hc with rfl | hc
    · exact (isPlain_of_isAlphanum (h d List.mem_cons_self)).2
    · exact (isPlain_of_isAlphanum (h c (List.mem_cons_of_mem d hc))).1

/-! ## 2. Names -/

theorem plain_identifier (id : String) : PlainText (identifier id) := by
  intro c hc
  rw [identifier, String.toList_ofList] at hc
  rcases mem_leadSafely hc with rfl | hc
  · rfl
  · obtain ⟨d, -, rfl⟩ := List.mem_map.mp hc
    split
    next hd =>
      rcases hd with hd | rfl
      · exact (isPlain_of_isAlphanum hd).1
      · rfl
    · rfl

theorem length_identifier_le (id : String) :
    (identifier id).toList.length ≤ id.toList.length + 1 := by
  rw [identifier, String.toList_ofList]
  refine (length_leadSafely_le _).trans ?_
  rw [List.length_map]

namespace Script

variable (s : Script)

/-- The names of both classes are plain, and hardly longer than the id. -/
theorem plain_classNameOf (phase : Phase) : PlainText (s.classNameOf phase) ∧
    2 < (s.classNameOf phase).toList.length ∧
    (s.classNameOf phase).toList.length ≤ s.id.toList.length + 16 := by
  have hid := length_identifier_le s.id
  cases phase <;>
    · refine ⟨PlainText.append (by decide +kernel) (plain_identifier s.id), ?_, ?_⟩ <;>
        · simp only [classNameOf, className, preambleClassName, String.toList_append,
            List.length_append]
          simp
          omega

theorem isPart_classNameOf (phase : Phase) : IsPart (s.classNameOf phase) :=
  let ⟨hplain, hlength, _⟩ := s.plain_classNameOf phase
  hplain.isPart hlength

theorem isPart_classFileName (phase : Phase) : IsPart (classFileName (s.classNameOf phase)) := by
  obtain ⟨hplain, hlength, -⟩ := s.plain_classNameOf phase
  refine PlainText.isPart (hplain.append (by decide +kernel)) ?_
  rw [classFileName, String.toList_append, List.length_append]
  omega

/-- So is the name of the adapter. -/
theorem plain_adapterName : PlainText s.adapterName ∧
    s.adapterName.toList.length ≤ s.id.toList.length + 7 := by
  have hparts := Text.length_splitOn_le (!isAsciiAlphanumeric ·) s.id.toList
  rw [adapterName]
  constructor
  · refine PlainText.append (fun c hc => ?_) (by decide +kernel)
    rw [String.toList_ofList] at hc
    rcases mem_leadSafely hc with rfl | hc
    · rfl
    · obtain ⟨word, hword, hc⟩ := List.mem_flatMap.mp hc
      refine isPlain_of_mem_capitalize (fun d hd => ?_) hc
      simpa [isAsciiAlphanumeric] using Text.sep_eq_false_of_mem hword hd
  · have hlead := length_leadSafely_le
      ((Text.splitOn (!isAsciiAlphanumeric ·) s.id.toList).flatMap capitalize)
    have hflat (words : List (List Char)) :
        (words.flatMap capitalize).length = words.flatten.length := by
      rw [List.length_flatMap, List.length_flatten]
      simp only [length_capitalize]
    rw [hflat] at hlead
    rw [String.toList_append, String.toList_ofList, List.length_append]
    have hsuffix : "Plugin".toList.length = 6 := by simp
    omega

end Script

end ScriptPlugins
