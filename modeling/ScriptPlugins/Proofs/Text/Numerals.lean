import Mathlib.Algebra.GroupWithZero.Nat
import ScriptPlugins.Text.Decimal

/-!
# Numerals — what is written in digits is read back

Digits are read from the most significant one on, so leading zeros count for nothing.  The bases are
those with a digit for each value, ten and sixteen among them.
-/

namespace ScriptPlugins.Text

/-! ## 1. Single digits -/

theorem digitValue?_digitChar {base d : Nat} (hb : base ≤ 16) (hd : d < base) :
    digitValue? base (Nat.digitChar d) = some d := by
  have h16 : ∀ e < 16, (digitValue? 16 (Nat.digitChar e)) = some e := by decide
  have h := h16 d (by omega)
  rw [digitValue?, Option.filter_eq_some_iff] at h ⊢
  exact ⟨h.1, by simpa using hd⟩

theorem digitValue?_zero {base : Nat} (hb : 0 < base) : digitValue? base '0' = some 0 := by
  rw [digitValue?, Option.filter_eq_some_iff]
  exact ⟨rfl, by simpa using hb⟩

/-! ## 2. Numerals -/

/-- What a numeral stands for if digits have been read before it. -/
def numeralAfter? (base n : Nat) (cs : List Char) : Option Nat :=
  cs.foldlM (fun n c => (digitValue? base c).map (base * n + ·)) n

theorem numeralAfter?_append (base n : Nat) (cs ds : List Char) :
    numeralAfter? base n (cs ++ ds) =
      numeralAfter? base n cs >>= fun m => numeralAfter? base m ds := by
  rw [numeralAfter?, List.foldlM_append]
  rfl

theorem numeral?_append_digit {base d : Nat} {cs : List Char} {n : Nat} (hb : base ≤ 16)
    (hd : d < base) (h : numeral? base cs = some n) :
    numeral? base (cs ++ [Nat.digitChar d]) = some (base * n + d) := by
  have ha := numeralAfter?_append base 0 cs [Nat.digitChar d]
  have hn : numeralAfter? base 0 cs = some n := h
  rw [hn] at ha
  show numeralAfter? base 0 (cs ++ [Nat.digitChar d]) = _
  rw [ha]
  simp [numeralAfter?, digitValue?_digitChar hb hd]

/-- A number is what its digits stand for. -/
theorem numeral?_toDigits {base : Nat} (h₁ : 1 < base) (h₂ : base ≤ 16) (n : Nat) :
    numeral? base (Nat.toDigits base n) = some n := by
  induction n using Nat.strongRecOn with
  | ind n ih =>
    rw [Nat.toDigits_eq_if h₁]
    split
    next hn => simp [numeral?, digitValue?_digitChar h₂ hn]
    next hn =>
      have hlt : n / base < n := Nat.div_lt_self (by omega) h₁
      rw [numeral?_append_digit h₂ (Nat.mod_lt n (by omega)) (ih _ hlt), Nat.div_add_mod]

theorem numeral?_zeros {base : Nat} (hb : 0 < base) (k : Nat) (cs : List Char) :
    numeral? base (List.replicate k '0' ++ cs) = numeral? base cs := by
  induction k with
  | zero => rfl
  | succ k ih =>
    rw [← ih, List.replicate_succ, List.cons_append, numeral?, List.foldlM_cons,
      digitValue?_zero hb]
    rfl

theorem numeral?_decimal (n : Nat) : numeral? 10 (decimal n) = some n :=
  numeral?_toDigits (by decide) (by decide) n

theorem numeral?_padded (width n : Nat) : numeral? 10 (padded width n) = some n := by
  rw [padded, numeral?_zeros (by decide), numeral?_decimal]

theorem numeral?_hexPadded (width n : Nat) : numeral? 16 (hexPadded width n) = some n := by
  rw [hexPadded, numeral?_zeros (by decide), numeral?_toDigits (by decide) (by decide)]

/-! ## 3. The digits of a number -/

theorem exists_of_mem_toDigits {base : Nat} (hb : 1 < base) {n : Nat} {c : Char}
    (h : c ∈ Nat.toDigits base n) : ∃ d < base, c = Nat.digitChar d := by
  induction n using Nat.strongRecOn with
  | ind n ih =>
    rw [Nat.toDigits_eq_if hb] at h
    split at h
    next hn => exact ⟨n, hn, List.mem_singleton.mp h⟩
    next hn =>
      rcases List.mem_append.mp h with h | h
      · exact ih (n / base) (Nat.div_lt_self (by omega) hb) h
      · exact ⟨n % base, Nat.mod_lt n (by omega), List.mem_singleton.mp h⟩

theorem isDigit_of_mem_decimal {n : Nat} {c : Char} (h : c ∈ decimal n) : c.isDigit :=
  Nat.isDigit_of_mem_toDigits (by decide) (by decide) h

theorem decimal_ne_nil (n : Nat) : decimal n ≠ [] := Nat.toDigits_ne_nil

theorem isDigit_of_mem_padded {width n : Nat} {c : Char} (h : c ∈ padded width n) : c.isDigit := by
  rcases List.mem_append.mp h with h | h
  · rw [List.eq_of_mem_replicate h]
    decide
  · exact isDigit_of_mem_decimal h

/-- A number that has no more digits than a width fills it. -/
theorem length_padded {width n : Nat} (hw : 0 < width) (h : n < 10 ^ width) :
    (padded width n).length = width := by
  have hl : (decimal n).length ≤ width :=
    (Nat.length_toDigits_le_iff (by decide) hw).mpr h
  rw [padded, List.length_append, List.length_replicate]
  omega

theorem length_hexPadded {width n : Nat} (hw : 0 < width) (h : n < 16 ^ width) :
    (hexPadded width n).length = width := by
  have hl : (Nat.toDigits 16 n).length ≤ width :=
    (Nat.length_toDigits_le_iff (by decide) hw).mpr h
  rw [hexPadded, List.length_append, List.length_replicate]
  omega

/-- Only zero begins with a zero. -/
theorem head?_decimal_ne_zero {n : Nat} (hn : n ≠ 0) : (decimal n).head? ≠ some '0' := by
  induction n using Nat.strongRecOn with
  | ind n ih =>
    rw [decimal, Nat.toDigits_eq_if (by decide)]
    split
    next hlt =>
      have h10 : ∀ d < 10, d ≠ 0 → [Nat.digitChar d].head? ≠ some '0' := by decide
      exact h10 n hlt hn
    next hlt =>
      have hne := decimal_ne_nil (n / 10)
      have hd := ih (n / 10) (by omega) (by omega)
      rw [decimal] at hne hd
      rwa [List.head?_append, List.head?_eq_some_head hne, Option.some_or,
        ← List.head?_eq_some_head]

end ScriptPlugins.Text
