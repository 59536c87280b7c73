import ScriptPlugins.Json.Printer
import ScriptPlugins.Json.Reader
import ScriptPlugins.Proofs.Text.Numerals

/-!
# Strings — a string in quotes is read back

Every character is written as one unit: itself, a short escape, or its code.  A code is that of a
control character, so it is never taken for one half of a surrogate pair.
-/

namespace ScriptPlugins.Json

/-- The unit that a character is written as. -/
def unitOf (c : Char) : TextUnit :=
  if c.toNat < 0x20 ∧ c ∉ ['\n', '\r', '\t', '\x08', '\x0c'] then .code c.toNat else .char c

theorem readUnits_char {c : Char} (hq : c ≠ '"') (hb : c ≠ '\\') (cs : List Char) :
    readUnits (c :: cs) = if c.toNat < 0x20 then none
      else (readUnits cs).map fun (us, rest) => (.char c :: us, rest) := by
  rw [readUnits]
  · intro h; exact absurd h hq
  · intro _ _ _ _ _ h; exact absurd h hb
  · intro _ _ h; exact absurd h hb

theorem readUnits_code {n : Nat} (hn : n < 16 ^ 4) (cs : List Char) :
    readUnits ('\\' :: 'u' :: (Text.hexPadded 4 n ++ cs)) =
      (readUnits cs).map fun (us, rest) => (.code n :: us, rest) := by
  have hl := Text.length_hexPadded (by decide) hn
  have hv := Text.numeral?_hexPadded 4 n
  obtain ⟨a, b, c, d, hd⟩ : ∃ a b c d, Text.hexPadded 4 n = [a, b, c, d] := by
    match h : Text.hexPadded 4 n with
    | [a, b, c, d] => exact ⟨a, b, c, d, rfl⟩
    | [] | [_] | [_, _] | [_, _, _] | _ :: _ :: _ :: _ :: _ :: _ => simp [h] at hl
  rw [hd] at hv ⊢
  show (Text.numeral? 16 [a, b, c, d] >>= fun n => readUnits cs >>= _) = _
  rw [hv]
  cases readUnits cs <;> rfl

/-- A character is read back from what is written for it. -/
theorem readUnits_escape (c : Char) (cs : List Char) :
    readUnits (escape c ++ cs) =
      (readUnits cs).map fun (us, rest) => (unitOf c :: us, rest) := by
  by_cases h₁ : c = '"'
  · subst h₁; cases h : readUnits cs <;> simp [escape, readUnits, unescape, h, unitOf]
  by_cases h₂ : c = '\\'
  · subst h₂; cases h : readUnits cs <;> simp [escape, readUnits, unescape, h, unitOf]
  by_cases h₃ : c = '\n'
  · subst h₃; cases h : readUnits cs <;> simp [escape, readUnits, unescape, h, unitOf]
  by_cases h₄ : c = '\r'
  · subst h₄; cases h : readUnits cs <;> simp [escape, readUnits, unescape, h, unitOf]
  by_cases h₅ : c = '\t'
  · subst h₅; cases h : readUnits cs <;> simp [escape, readUnits, unescape, h, unitOf]
  by_cases h₆ : c = '\x08'
  · subst h₆; cases h : readUnits cs <;> simp [escape, readUnits, unescape, h, unitOf]
  by_cases h₇ : c = '\x0c'
  · subst h₇; cases h : readUnits cs <;> simp [escape, readUnits, unescape, h, unitOf]
  by_cases h₈ : c.toNat < 0x20
  · have he : escape c = '\\' :: 'u' :: Text.hexPadded 4 c.toNat := by
      simp [escape, h₁, h₂, h₃, h₄, h₅, h₆, h₇, h₈]
    have hu : unitOf c = .code c.toNat := by simp [unitOf, h₃, h₄, h₅, h₆, h₇, h₈]
    rw [he, hu, List.cons_append, List.cons_append, readUnits_code (by omega)]
  · have he : escape c = [c] := by simp [escape, h₁, h₂, h₃, h₄, h₅, h₆, h₇, h₈]
    have hu : unitOf c = .char c := by simp [unitOf, h₈]
    rw [he, hu, List.singleton_append, readUnits_char h₁ h₂, if_neg h₈]

theorem readUnits_flatMap_escape (cs rest : List Char) :
    readUnits (cs.flatMap escape ++ '"' :: rest) = some (cs.map unitOf, rest) := by
  induction cs with
  | nil => rw [List.flatMap_nil, List.nil_append, readUnits]; rfl
  | cons c cs ih => rw [List.flatMap_cons, List.append_assoc, readUnits_escape, ih]; rfl

/-- A unit that a character is written as says this character, whatever follows it. -/
theorem decodeUnits_unitOf (c : Char) (us : List TextUnit) :
    decodeUnits (unitOf c :: us) = (decodeUnits us).map (c :: ·) := by
  rw [unitOf]
  split
  next h =>
    have hh : isHighSurrogate c.toNat = false := by
      simp only [isHighSurrogate, Bool.and_eq_false_iff, decide_eq_false_iff_not]
      omega
    have hl : isLowSurrogate c.toNat = false := by
      simp only [isLowSurrogate, Bool.and_eq_false_iff, decide_eq_false_iff_not]
      omega
    match us with
    | [] => simp [decodeUnits, hh, hl]
    | .char d :: us => simp [decodeUnits, hh, hl]
    | .code n :: us => rw [decodeUnits]; simp [hh, hl]
  next => rw [decodeUnits]

theorem decodeUnits_map_unitOf (cs : List Char) : decodeUnits (cs.map unitOf) = some cs := by
  induction cs with
  | nil => rfl
  | cons c cs ih => rw [List.map_cons, decodeUnits_unitOf, ih]; rfl

/-- A string in quotes is read back behind its opening quote. -/
theorem readText_quote (s : String) (rest : List Char) :
    readText (s.toList.flatMap escape ++ '"' :: rest) = some (some s, rest) := by
  rw [readText, readUnits_flatMap_escape, Option.map_some]
  simp only [decodeUnits_map_unitOf, Option.map_some, String.ofList_toList]

end ScriptPlugins.Json
