import ScriptPlugins.Proofs.Text.Numerals
import ScriptPlugins.Proofs.Text.Runs
import ScriptPlugins.Time.Instant

/-!
# Instants — an instant that was written is read back

The writer leaves no blanks, and what stands behind a field never goes on with its digits.  What the
reader takes is valid whatever its offset was, so it can be written and read again.
-/

namespace ScriptPlugins.Instant

open Text

/-! ## 1. Fields -/

theorem isBlank_of_isDigit {c : Char} (h : c.isDigit) : Text.isBlank c = false := by
  have hc : 48 ≤ c.toNat ∧ c.toNat ≤ 57 := by
    rw [Char.isDigit, Bool.and_eq_true, decide_eq_true_eq, decide_eq_true_eq] at h
    exact ⟨UInt32.le_iff_toNat_le.mp h.1, UInt32.le_iff_toNat_le.mp h.2⟩
  simp only [Text.isBlank, blankRanges, List.any_cons, List.any_nil, Bool.or_false,
    Bool.or_eq_false_iff, Bool.and_eq_false_iff, decide_eq_false_iff_not]
  omega

theorem trimStart_cons {c : Char} (h : Text.isBlank c = false) (cs : List Char) :
    trimStart (c :: cs) = c :: cs := List.dropWhile_cons_of_neg (by simp [h])

theorem trimStart_digits {ds : List Char} (hd : ∀ c ∈ ds, c.isDigit) (hne : ds ≠ [])
    (rest : List Char) : trimStart (ds ++ rest) = ds ++ rest := by
  cases ds with
  | nil => exact absurd rfl hne
  | cons d ds => exact trimStart_cons (isBlank_of_isDigit (hd d List.mem_cons_self)) _

/-- Digits are taken up to something else, or as many as are wanted. -/
theorem takeDigits_append {most n : Nat} {ds rest : List Char} (hd : ∀ c ∈ ds, c.isDigit)
    (hne : ds ≠ []) (hn : numeral? 10 ds = some n) (hm : ds.length ≤ most)
    (hr : ds.length = most ∨ ∀ c ∈ rest.head?, c.isDigit = false) :
    takeDigits most (ds ++ rest) = some (n, rest) := by
  have hw : ((ds ++ rest).take most).takeWhile Char.isDigit = ds := by
    rw [List.take_append, List.take_of_length_le hm]
    refine takeWhile_append_of_head hd fun c hc => ?_
    rcases hr with hl | hr
    · rw [hl, Nat.sub_self, List.take_zero] at hc
      cases hc
    · refine hr c ?_
      cases hk : most - ds.length with
      | zero => rw [hk, List.take_zero] at hc; cases hc
      | succ k => rwa [hk, List.head?_take, if_neg (Nat.succ_ne_zero k)] at hc
  rw [takeDigits]
  simp only [hw, if_neg hne, hn, Option.map_some, List.drop_left]

theorem padded_ne_nil (width n : Nat) : padded width n ≠ [] := by
  simp [padded, decimal_ne_nil]

theorem takeField_padded {n : Nat} (hn : n < 100) (rest : List Char) :
    takeField (padded 2 n ++ rest) = some (n, rest) := by
  have hd : ∀ c ∈ padded 2 n, c.isDigit := fun c hc => isDigit_of_mem_padded hc
  have hl : (padded 2 n).length = 2 := length_padded (by decide) hn
  rw [takeField, trimStart_digits hd (padded_ne_nil 2 n)]
  exact takeDigits_append hd (padded_ne_nil 2 n) (numeral?_padded 2 n) (Nat.le_of_eq hl) (.inl hl)

theorem takeMark_cons {mark : Char} (h : Text.isBlank mark = false) (rest : List Char) :
    takeMark mark (mark :: rest) = some rest := by
  rw [takeMark, trimStart_cons h]
  simp

/-- A digit is not a sign. -/
theorem takeYear_digits {ds : List Char} (hd : ∀ c ∈ ds, c.isDigit) (hne : ds ≠ [])
    (rest : List Char) : takeYear (ds ++ rest) =
      (takeDigits 4 (ds ++ rest)).map fun (n, rest) => ((n : Int), rest) := by
  rw [takeYear, trimStart_digits hd hne]
  cases ds with
  | nil => exact absurd rfl hne
  | cons d ds =>
    have hdig := hd d List.mem_cons_self
    split
    next h => rw [(List.cons.inj h).1] at hdig; cases hdig
    next h => rw [(List.cons.inj h).1] at hdig; cases hdig
    next => rfl

theorem takeYear_writeYear (year : Int) (rest : List Char) :
    takeYear (writeYear year ++ '-' :: rest) = some (year, '-' :: rest) := by
  have hnd : ∀ c ∈ ('-' :: rest).head?, c.isDigit = false := by
    intro c hc
    cases hc
    rfl
  -- Behind a sign all digits are taken, however many there are.
  have hall (n : Nat) : takeDigits (padded 4 n ++ '-' :: rest).length (padded 4 n ++ '-' :: rest) =
      some (n, '-' :: rest) :=
    takeDigits_append (fun c hc => isDigit_of_mem_padded hc) (padded_ne_nil 4 n)
      (numeral?_padded 4 n) (by rw [List.length_append]; omega) (.inr hnd)
  rw [writeYear]
  split
  next h =>
    have hd : ∀ c ∈ padded 4 year.toNat, c.isDigit := fun c hc => isDigit_of_mem_padded hc
    have hl : (padded 4 year.toNat).length = 4 := length_padded (by decide) (by omega)
    rw [takeYear_digits hd (padded_ne_nil 4 _),
      takeDigits_append hd (padded_ne_nil 4 _) (numeral?_padded 4 _) (by omega) (.inl hl)]
    simp only [Option.map_some, Int.toNat_of_nonneg h.1]
  next h =>
    split
    next hneg =>
      rw [List.cons_append, takeYear, trimStart_cons (by decide)]
      simp only [hall, Option.map_some]
      rw [Int.toNat_of_nonneg (by omega), Int.neg_neg]
    next hpos =>
      rw [List.cons_append, takeYear, trimStart_cons (by decide)]
      simp only [hall, Option.map_some]
      rw [Int.toNat_of_nonneg (by omega)]

theorem takeNanos_digits {width n : Nat} (hw : 0 < width) (h9 : width ≤ 9) (hn : n < 10 ^ width) :
    takeNanos ('.' :: padded width n ++ ['Z']) = some (n * 10 ^ (9 - width), ['Z']) := by
  have hd : ∀ c ∈ padded width n, c.isDigit := fun c hc => isDigit_of_mem_padded hc
  have hl : (padded width n).length = width := length_padded hw hn
  have ht : takeDigits 9 (padded width n ++ ['Z']) = some (n, ['Z']) :=
    takeDigits_append hd (padded_ne_nil width n) (numeral?_padded width n) (by omega)
      (.inr fun c hc => by cases hc; rfl)
  rw [List.cons_append, takeNanos, ht]
  simp [hl, Char.isDigit]

theorem takeNanos_writeNanos {n : Nat} (hn : n < 1000000000) :
    takeNanos (writeNanos n ++ ['Z']) = some (n, ['Z']) := by
  rw [writeNanos]
  split
  next h => rw [h]; rfl
  next h =>
    split
    next h6 =>
      rw [takeNanos_digits (by decide) (by decide) (by omega)]
      simp only [Option.some.injEq, Prod.mk.injEq, and_true]
      omega
    next h6 =>
      split
      next h3 =>
        rw [takeNanos_digits (by decide) (by decide) (by omega)]
        simp only [Option.some.injEq, Prod.mk.injEq, and_true]
        omega
      next h3 =>
        rw [takeNanos_digits (by decide) (by decide) (by omega)]
        simp

/-! ## 2. The round trip -/

/-- An instant that names a day and a second of it is the same in UTC. -/
theorem toUTC_zero {t : Instant} (h : t.valid) : t.toUTC 0 = t := by
  obtain ⟨year, month, day, hour, minute, second, nanos⟩ := t
  simp only [valid, Bool.decide_and, Bool.and_eq_true, decide_eq_true_eq] at h
  have h₁ : ¬((hour : Int) * 60 + minute - 0 < 0) := by omega
  have h₂ : ¬((hour : Int) * 60 + minute - 0 ≥ 1440) := by omega
  simp only [toUTC, if_neg h₁, if_neg h₂]
  congr 1 <;> omega

/-- **An instant is read back from its text.** -/
theorem read_write {t : Instant} (h : t.valid) : read t.write = some t := by
  have hv := h
  obtain ⟨year, month, day, hour, minute, second, nanos⟩ := t
  simp only [valid, Bool.decide_and, Bool.and_eq_true, decide_eq_true_eq] at hv
  obtain ⟨hyear, h₁, h₂, h₃, h₄, h₅, h₆, h₇, h₈⟩ := hv
  have hday : day < 100 := by
    have : daysInMonth year month ≤ 31 := by
      rw [daysInMonth]
      split
      · split <;> omega
      · split <;> omega
    omega
  have hyphen : Text.isBlank '-' = false := by decide
  have colon : Text.isBlank ':' = false := by decide
  rw [read, write, String.toList_ofList]
  simp only [writeDate, writeTime, List.append_assoc, List.cons_append]
  refine Option.bind_eq_some_iff.mpr ⟨_, takeYear_writeYear .., ?_⟩
  refine Option.bind_eq_some_iff.mpr ⟨_, takeMark_cons hyphen _, ?_⟩
  refine Option.bind_eq_some_iff.mpr ⟨_, takeField_padded (show month < 100 by omega) _, ?_⟩
  refine Option.bind_eq_some_iff.mpr ⟨_, takeMark_cons hyphen _, ?_⟩
  refine Option.bind_eq_some_iff.mpr ⟨_, takeField_padded hday _, ?_⟩
  -- The mark between the day and the hour is a letter.
  refine (if_pos (Or.inr (Or.inl rfl))).trans (Option.bind_eq_some_iff.mpr ⟨_, rfl, ?_⟩)
  refine Option.bind_eq_some_iff.mpr ⟨_, takeField_padded (show hour < 100 by omega) _, ?_⟩
  refine Option.bind_eq_some_iff.mpr ⟨_, takeMark_cons colon _, ?_⟩
  refine Option.bind_eq_some_iff.mpr ⟨_, takeField_padded (show minute < 100 by omega) _, ?_⟩
  refine Option.bind_eq_some_iff.mpr ⟨_, takeMark_cons colon _, ?_⟩
  refine Option.bind_eq_some_iff.mpr ⟨_, takeField_padded (show second < 100 by omega) _, ?_⟩
  refine Option.bind_eq_some_iff.mpr ⟨_, takeNanos_writeNanos h₈, ?_⟩
  have hzone : takeOffset (trimStart ['Z']) = some (0, []) := by
    rw [trimStart_cons (by decide)]
    rfl
  refine Option.bind_eq_some_iff.mpr ⟨_, hzone, ?_⟩
  show (if (Instant.mk year month day hour minute second nanos).valid ∧ trimStart [] = [] then
    if yearInRange (toUTC _ 0).year then some (toUTC _ 0) else none else none) = _
  rw [if_pos ⟨h, rfl⟩, toUTC_zero h, if_pos hyear]

/-! ## 3. What is read is valid -/

/-- A month and a day that name a day of a year. -/
structure IsDate (date : Int × Nat × Nat) : Prop where
  month_pos : 1 ≤ date.2.1
  month_le : date.2.1 ≤ 12
  day_pos : 1 ≤ date.2.2
  day_le : date.2.2 ≤ daysInMonth date.1 date.2.1

theorem daysInMonth_pos (year : Int) (month : Nat) : 1 ≤ daysInMonth year month := by
  unfold daysInMonth
  split
  · split <;> omega
  · split <;> omega

theorem isDate_nextDay {date : Int × Nat × Nat} (h : IsDate date) : IsDate (nextDay date) := by
  obtain ⟨year, month, day⟩ := date
  obtain ⟨h₁, h₂, h₃, h₄⟩ := h
  rw [nextDay]
  split
  next hd => exact ⟨h₁, h₂, Nat.succ_pos day, hd⟩
  next =>
    split
    next hm => exact ⟨Nat.succ_pos month, hm, Nat.le_refl 1, daysInMonth_pos _ _⟩
    next => exact ⟨Nat.le_refl 1, Nat.succ_pos 11, Nat.le_refl 1, daysInMonth_pos _ _⟩

theorem isDate_previousDay {date : Int × Nat × Nat} (h : IsDate date) :
    IsDate (previousDay date) := by
  obtain ⟨year, month, day⟩ := date
  obtain ⟨h₁, h₂, h₃, h₄⟩ := h
  rw [previousDay]
  split
  next hd => exact ⟨h₁, h₂, Nat.le_sub_one_of_lt hd, (Nat.sub_le day 1).trans h₄⟩
  next =>
    split
    next hm =>
      exact ⟨Nat.le_sub_one_of_lt hm, (Nat.sub_le month 1).trans h₂, daysInMonth_pos _ _,
        Nat.le_refl _⟩
    next => exact ⟨Nat.succ_pos 11, Nat.le_refl 12, Nat.succ_pos 30, Nat.le_refl 31⟩

/-- Fields that name a day and a second of it still do so in UTC, if the year is one. -/
theorem valid_toUTC {t : Instant} {offset : Int} (h : t.valid) (hoffset : offset.natAbs < 1440)
    (hyear : yearInRange (t.toUTC offset).year) : (t.toUTC offset).valid := by
  obtain ⟨year, month, day, hour, minute, second, nanos⟩ := t
  simp only [valid, Bool.decide_and, Bool.and_eq_true, decide_eq_true_eq] at h ⊢
  obtain ⟨-, hm₁, hm₁₂, hd₁, hd, hhour, hminute, hsecond, hnanos⟩ := h
  have hdate : IsDate (year, month, day) := ⟨hm₁, hm₁₂, hd₁, hd⟩
  revert hyear
  unfold toUTC
  dsimp only
  split
  next hneg =>
    intro hyear
    obtain ⟨h₁, h₂, h₃, h₄⟩ := isDate_previousDay hdate
    exact ⟨hyear, h₁, h₂, h₃, h₄, by dsimp only; omega, by dsimp only; omega, hsecond, hnanos⟩
  next hneg =>
    split
    next hlate =>
      intro hyear
      obtain ⟨h₁, h₂, h₃, h₄⟩ := isDate_nextDay hdate
      exact ⟨hyear, h₁, h₂, h₃, h₄, by dsimp only; omega, by dsimp only; omega, hsecond, hnanos⟩
    next hlate =>
      intro hyear
      exact ⟨hyear, hm₁, hm₁₂, hd₁, hd, by dsimp only; omega, by dsimp only; omega, hsecond, hnanos⟩

theorem natAbs_signed {cs rest : List Char} {offset : Int}
    (h : takeOffset.signed cs = some (offset, rest)) : offset.natAbs < 1440 := by
  unfold takeOffset.signed at h
  split at h
  · cases h; decide
  · cases h; decide
  next s a b behind _ _ =>
    -- Whatever the sign is, hours and minutes make less than a day.
    extract_lets signed at h
    have hsign : ∃ sign : Int, sign.natAbs = 1 ∧ signed sign = some (offset, rest) := by
      split at h
      · exact ⟨1, rfl, h⟩
      · split at h
        · exact ⟨-1, rfl, h⟩
        · cases h
    obtain ⟨sign, hunit, h⟩ := hsign
    obtain ⟨hours, -, h⟩ := Option.bind_eq_some_iff.mp h
    split at h
    next m₁ m₂ rest _ =>
      obtain ⟨minutes, -, h⟩ := Option.bind_eq_some_iff.mp h
      split at h
      next hlt =>
        cases h
        rw [Int.natAbs_mul, hunit]
        omega
      next => cases h
    next => cases h
  · cases h

/-- An offset is less than a day. -/
theorem natAbs_takeOffset {cs rest : List Char} {offset : Int}
    (h : takeOffset cs = some (offset, rest)) : offset.natAbs < 1440 := by
  unfold takeOffset at h
  split at h
  · split at h
    · cases h; decide
    · exact natAbs_signed h
  · exact natAbs_signed h

/-- **An instant that was read is valid.** -/
theorem valid_of_read {s : String} {t : Instant} (h : read s = some t) : t.valid := by
  unfold read at h
  obtain ⟨⟨year, cs⟩, -, h⟩ := Option.bind_eq_some_iff.mp h
  obtain ⟨cs, -, h⟩ := Option.bind_eq_some_iff.mp h
  obtain ⟨⟨month, cs⟩, -, h⟩ := Option.bind_eq_some_iff.mp h
  obtain ⟨cs, -, h⟩ := Option.bind_eq_some_iff.mp h
  obtain ⟨⟨day, cs⟩, -, h⟩ := Option.bind_eq_some_iff.mp h
  dsimp only at h
  -- Only the mark between the day and the hour is left to choose; without it nothing is read.
  split at h
  next c cs =>
    split at h
    next =>
      obtain ⟨cs, -, h⟩ := Option.bind_eq_some_iff.mp h
      obtain ⟨hour, -, h⟩ := Option.bind_eq_some_iff.mp h
      obtain ⟨cs, -, h⟩ := Option.bind_eq_some_iff.mp h
      obtain ⟨minute, -, h⟩ := Option.bind_eq_some_iff.mp h
      obtain ⟨cs, -, h⟩ := Option.bind_eq_some_iff.mp h
      obtain ⟨second, -, h⟩ := Option.bind_eq_some_iff.mp h
      obtain ⟨nanos, -, h⟩ := Option.bind_eq_some_iff.mp h
      obtain ⟨offset, hoffset, h⟩ := Option.bind_eq_some_iff.mp h
      split at h
      next hvalid =>
        split at h
        next hyear =>
          cases h
          exact valid_toUTC hvalid.1 (natAbs_takeOffset hoffset) hyear
        next => cases h
      next => cases h
    next => cases h
  next => cases h

end ScriptPlugins.Instant
