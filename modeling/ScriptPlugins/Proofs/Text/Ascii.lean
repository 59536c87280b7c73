import Mathlib.Data.List.Basic
import ScriptPlugins.Proofs.Text.Numerals

/-!
# ASCII text — one byte for each character

Bytes can be taken off the end of such a text at any place, and what is left is text.
-/

namespace ScriptPlugins

/-- Characters that take one byte each. -/
def Ascii (cs : List Char) : Prop := ∀ c ∈ cs, c.utf8Size = 1

instance (cs : List Char) : Decidable (Ascii cs) :=
  List.decidableBAll ..

namespace Ascii

variable {cs ds : List Char}

theorem nil : Ascii [] := fun _ h => absurd h List.not_mem_nil

theorem cons {c : Char} (hc : c.utf8Size = 1) (h : Ascii cs) : Ascii (c :: cs) :=
  List.forall_mem_cons.mpr ⟨hc, h⟩

theorem append (h : Ascii cs) (h' : Ascii ds) : Ascii (cs ++ ds) := fun c hc =>
  (List.mem_append.mp hc).elim (h c) (h' c)

/-- The bytes of such a text are as many as its characters. -/
theorem size (h : Ascii cs) : (String.ofList cs).utf8ByteSize = cs.length := by
  induction cs with
  | nil => rfl
  | cons c cs ih =>
    rw [String.ofList_cons, String.utf8ByteSize_append, String.utf8ByteSize_singleton,
      h c List.mem_cons_self, ih fun d hd => h d (List.mem_cons_of_mem c hd), List.length_cons,
      Nat.add_comm]

/-- The first bytes are the first characters. -/
theorem extract_toUTF8 (h : Ascii cs) {k : Nat} (hk : k ≤ cs.length) :
    (String.ofList cs).toUTF8.extract 0 k = (String.ofList (cs.take k)).toUTF8 := by
  have hfirst : (String.ofList (cs.take k)).toByteArray.size = k := by
    have hpart : Ascii (cs.take k) := fun c hc => h c (List.mem_of_mem_take hc)
    have hsize := hpart.size
    rw [List.length_take, Nat.min_eq_left hk] at hsize
    exact hsize
  rw [String.toUTF8_eq_toByteArray, String.toUTF8_eq_toByteArray]
  calc (String.ofList cs).toByteArray.extract 0 k
      = ((String.ofList (cs.take k)).toByteArray ++
          (String.ofList (cs.drop k)).toByteArray).extract 0 k := by
        rw [← String.toByteArray_append, ← String.ofList_append, List.take_append_drop]
    _ = (String.ofList (cs.take k)).toByteArray := ByteArray.extract_append_eq_left hfirst.symm

/-! ## Digits -/

theorem toDigits {base : Nat} (h₁ : 1 < base) (h₂ : base ≤ 16) (n : Nat) :
    Ascii (Nat.toDigits base n) := by
  intro c hc
  obtain ⟨d, hd, rfl⟩ := Text.exists_of_mem_toDigits h₁ hc
  have h16 : ∀ d < 16, (Nat.digitChar d).utf8Size = 1 := by decide +kernel
  exact h16 d (by omega)

theorem replicate_zero (k : Nat) : Ascii (List.replicate k '0') := fun _ hc => by
  rw [List.eq_of_mem_replicate hc]
  rfl

theorem decimal (n : Nat) : Ascii (Text.decimal n) := toDigits (by decide) (by decide) n

theorem padded (width n : Nat) : Ascii (Text.padded width n) :=
  (replicate_zero _).append (decimal n)

theorem hexPadded (width n : Nat) : Ascii (Text.hexPadded width n) :=
  (replicate_zero _).append (toDigits (by decide) (by decide) n)

end Ascii

end ScriptPlugins
