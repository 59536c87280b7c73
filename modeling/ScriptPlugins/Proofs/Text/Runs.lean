import Mathlib.Data.List.TakeDrop
import Mathlib.Data.List.TakeWhile

/-!
# Runs — where a run of characters ends

A run of characters that satisfy a test is maximal if what follows it does not go on with it.
-/

namespace ScriptPlugins.Text

theorem takeWhile_append_of_head {q : Char → Bool} {w rest : List Char}
    (hw : ∀ c ∈ w, q c) (hr : ∀ c ∈ rest.head?, q c = false) :
    (w ++ rest).takeWhile q = w := by
  rw [List.takeWhile_append_of_pos hw]
  cases rest with
  | nil => simp
  | cons c cs => simp [hr c rfl]

theorem dropWhile_append_of_head {q : Char → Bool} {w rest : List Char}
    (hw : ∀ c ∈ w, q c) (hr : ∀ c ∈ rest.head?, q c = false) :
    (w ++ rest).dropWhile q = rest := by
  rw [List.dropWhile_append_of_pos hw]
  cases rest with
  | nil => rfl
  | cons c cs => rw [List.dropWhile_cons_of_neg (by simp [hr c rfl])]

theorem span_append_of_head {q : Char → Bool} {w rest : List Char}
    (hw : ∀ c ∈ w, q c) (hr : ∀ c ∈ rest.head?, q c = false) :
    (w ++ rest).span q = (w, rest) := by
  rw [List.span_eq_takeWhile_dropWhile, takeWhile_append_of_head hw hr,
    dropWhile_append_of_head hw hr]

theorem head?_dropWhile_eq_false (q : Char → Bool) (cs : List Char) :
    ∀ c ∈ (cs.dropWhile q).head?, q c = false := by
  intro c hc
  have h := List.head?_dropWhile_not q cs
  rw [Option.mem_def.mp hc] at h
  simpa using h

end ScriptPlugins.Text
