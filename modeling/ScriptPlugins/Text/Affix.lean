/-!
# Affixes — texts with a given beginning or end

What is left of a text when a given beginning or end is taken off, and the parts between
separators.
-/

namespace ScriptPlugins.Text

/-- The rest of a list behind a given beginning, if it begins so. -/
def withoutStart? {α : Type} [DecidableEq α] : List α → List α → Option (List α)
  | [], xs => some xs
  | a :: as, x :: xs => if a = x then withoutStart? as xs else none
  | _ :: _, [] => none

theorem withoutStart?_eq_some {α : Type} [DecidableEq α] {as xs rest : List α} :
    withoutStart? as xs = some rest ↔ xs = as ++ rest := by
  induction as generalizing xs with
  | nil => cases xs <;> simp [withoutStart?]
  | cons a as ih =>
    cases xs with
    | nil => simp [withoutStart?]
    | cons x xs =>
      rw [withoutStart?, List.cons_append, List.cons.injEq]
      by_cases hx : a = x
      · rw [if_pos hx, ih, eq_comm (a := x), and_iff_right hx]
      · rw [if_neg hx, eq_comm (a := x)]
        simp [hx]

/-- A text without a given end, if it ends so. -/
def withoutEnd? (suffix_ s : String) : Option String :=
  (withoutStart? suffix_.toList.reverse s.toList.reverse).map fun cs => String.ofList cs.reverse

/-- What is left of a text is the rest in front of the end. -/
theorem withoutEnd?_eq_some {s suffix_ rest : String} :
    withoutEnd? suffix_ s = some rest ↔ s = rest ++ suffix_ := by
  rw [withoutEnd?, Option.map_eq_some_iff]
  constructor
  · rintro ⟨cs, hcs, rfl⟩
    have hlist := congrArg List.reverse (withoutStart?_eq_some.mp hcs)
    rw [List.reverse_append, List.reverse_reverse, List.reverse_reverse] at hlist
    rw [← String.toList_inj, hlist, String.toList_append, String.toList_ofList]
  · rintro rfl
    refine ⟨rest.toList.reverse, withoutStart?_eq_some.mpr ?_, ?_⟩
    · rw [String.toList_append, List.reverse_append]
    · rw [List.reverse_reverse, String.ofList_toList]

/-- A text loses the end it was given. -/
theorem withoutEnd?_append (s suffix_ : String) : withoutEnd? suffix_ (s ++ suffix_) = some s :=
  withoutEnd?_eq_some.mpr rfl

/-- The parts of a text between the characters that separate; there is always one part. -/
def splitOn (sep : Char → Bool) : List Char → List (List Char)
  | [] => [[]]
  | c :: cs =>
    if sep c then [] :: splitOn sep cs
    else match splitOn sep cs with
      | [] => [[c]]
      | part :: parts => (c :: part) :: parts

/-- The parts of a list of texts, with a separator between them. -/
def joinWith (sep : String) : List String → String
  | [] => ""
  | [s] => s
  | s :: ss => s ++ sep ++ joinWith sep ss

end ScriptPlugins.Text
