import ScriptPlugins.Proofs.Json.Values

/-!
# Prefixes — a torn text says nothing

What is read from a text is read from every text that goes on behind it, except for a number at the
very end.  So the text of an object has no part that is an object in its place.
-/

namespace ScriptPlugins.Json

/-! ## 1. Blanks and strings -/

theorem skipBlank_append {cs : List Char} (h : skipBlank cs ≠ []) (q : List Char) :
    skipBlank (cs ++ q) = skipBlank cs ++ q := by
  rw [skipBlank, List.dropWhile_append, if_neg]
  · rfl
  · simpa [skipBlank] using h

theorem unescape_u : unescape 'u' = none := rfl

theorem readUnits_append {cs rest : List Char} {us : List TextUnit}
    (h : readUnits cs = some (us, rest)) (q : List Char) :
    readUnits (cs ++ q) = some (us, rest ++ q) := by
  fun_induction readUnits cs generalizing us rest with
  | case1 cs =>
    cases h
    rw [List.cons_append, readUnits]
  | case2 a b c d cs ih =>
    simp only [Option.bind_eq_bind, Option.bind_eq_some_iff, Option.pure_def] at h
    obtain ⟨n, hn, ⟨us', rest'⟩, hread, he⟩ := h
    cases he
    simp only [List.cons_append, readUnits, hn, ih hread, Option.bind_eq_bind, Option.bind_some,
      Option.pure_def]
  | case3 e cs hu ih =>
    simp only [Option.bind_eq_bind, Option.bind_eq_some_iff, Option.pure_def] at h
    obtain ⟨c, hc, ⟨us', rest'⟩, hread, he⟩ := h
    cases he
    have hne : e ≠ 'u' := by
      rintro rfl
      rw [unescape_u] at hc
      cases hc
    rw [List.cons_append, List.cons_append, readUnits]
    · simp only [hc, ih hread, Option.bind_eq_bind, Option.bind_some, Option.pure_def]
    · intro a b c d cs' he' _
      exact hne he'
  | case4 c cs hq hcode hshort hlow => cases h
  | case5 c cs hq hcode hshort hlow ih =>
    simp only [Option.map_eq_some_iff] at h
    obtain ⟨⟨us', rest'⟩, hread, he⟩ := h
    cases he
    -- A backslash at the very end would have nothing behind it to read.
    have hb : c ≠ '\\' := by
      rintro rfl
      cases cs with
      | nil => cases hread
      | cons e cs => exact hshort e cs rfl rfl
    rw [List.cons_append, readUnits_char hq hb, if_neg hlow, ih hread]
    rfl
  | case6 => cases h

theorem readText_append {cs rest : List Char} {s : Option String}
    (h : readText cs = some (s, rest)) (q : List Char) :
      readText (cs ++ q) = some (s, rest ++ q) := by
  simp only [readText, Option.map_eq_some_iff] at h ⊢
  obtain ⟨⟨us', rest'⟩, hread, he⟩ := h
  cases he
  exact ⟨(us', rest' ++ q), readUnits_append hread q, rfl⟩

/-! ## 2. Numbers -/

variable {cs ds rest : List Char}

/-- Digits that end before the text does. -/
theorem readDigits_append (h : readDigits cs = some (ds, rest)) (hr : rest ≠ []) (q : List Char) :
    readDigits (cs ++ q) = some (ds, rest ++ q) := by
  have hspan : cs.span Char.isDigit = (ds, rest) ∧ ds ≠ [] := by
    rw [readDigits] at h
    split at h
    · cases h
    next hne hs => cases h; exact ⟨hs, hne⟩
  obtain ⟨hspan, hne⟩ := hspan
  rw [List.span_eq_takeWhile_dropWhile] at hspan
  obtain ⟨hds, hrest⟩ := Prod.mk.inj hspan
  have hsplit : cs ++ q = ds ++ (rest ++ q) := by
    rw [← List.append_assoc, ← hds, ← hrest, List.takeWhile_append_dropWhile]
  have hdigits : ∀ c ∈ ds, c.isDigit := fun c hc => List.mem_takeWhile_imp (hds ▸ hc)
  have hhead : ∀ c ∈ (rest ++ q).head?, c.isDigit = false := by
    rw [List.head?_append, List.head?_eq_some_head hr, Option.some_or, ← List.head?_eq_some_head hr,
      ← hrest]
    exact Text.head?_dropWhile_eq_false Char.isDigit cs
  rw [readDigits, hsplit, Text.span_append_of_head hdigits hhead]
  cases ds with
  | nil => exact absurd rfl hne
  | cons d ds => rfl

theorem readWhole_append (h : readWhole cs = some (ds, rest)) (hr : rest ≠ []) (q : List Char) :
    readWhole (cs ++ q) = some (ds, rest ++ q) := by
  rw [readWhole] at h
  split at h
  · cases h
  next hzero =>
    rw [readWhole, readDigits_append h hr]
    split
    next d ds' rest' he =>
      exact (hzero d ds' rest (by rw [h, (Prod.mk.inj (Option.some.inj he)).1])).elim
    next => rfl

theorem readFraction_append (h : readFraction cs = some (ds, rest)) (hr : rest ≠ [])
    (q : List Char) : readFraction (cs ++ q) = some (ds, rest ++ q) := by
  match cs, h with
  | [], h =>
    cases h
    exact absurd rfl hr
  | c :: cs, h =>
    by_cases hc : c = '.'
    · subst hc
      simp only [readFraction, Option.map_eq_some_iff] at h
      obtain ⟨⟨ds', rest'⟩, hread, he⟩ := h
      cases he
      rw [List.cons_append, readFraction, readDigits_append hread hr]
      rfl
    · have hstop (cs' : List Char) : readFraction (c :: cs') = some ([], c :: cs') := by
        rw [readFraction]
        intro _ he
        exact hc (List.cons.inj he).1
      rw [hstop] at h
      cases h
      exact hstop _

theorem readExponent_append (h : readExponent cs = some (ds, rest)) (hr : rest ≠ [])
    (q : List Char) : readExponent (cs ++ q) = some (ds, rest ++ q) := by
  match cs, h with
  | [], h =>
    cases h
    exact absurd rfl hr
  | e :: cs, h =>
    rw [List.cons_append, readExponent.eq_def]
    rw [readExponent.eq_def] at h
    simp only at h ⊢
    split at h
    next he =>
      rw [if_pos he]
      split at h
      next s cs =>
        split at h
        next hs =>
          simp only [Option.map_eq_some_iff] at h
          obtain ⟨⟨ds', rest'⟩, hread, he'⟩ := h
          cases he'
          simp only [List.cons_append, if_pos hs, readDigits_append hread hr, Option.map_some]
        next hs =>
          simp only [Option.map_eq_some_iff] at h
          obtain ⟨⟨ds', rest'⟩, hread, he'⟩ := h
          cases he'
          have hread' := readDigits_append hread hr q
          rw [List.cons_append] at hread'
          simp only [List.cons_append, if_neg hs, hread', Option.map_some]
      next => cases h
    next he =>
      rw [if_neg he]
      cases h
      rfl

theorem readUnsigned_append (h : readUnsigned cs = some (ds, rest)) (hr : rest ≠ [])
    (q : List Char) : readUnsigned (cs ++ q) = some (ds, rest ++ q) := by
  simp only [readUnsigned, Option.bind_eq_bind, Option.bind_eq_some_iff, Option.pure_def] at h
  obtain ⟨⟨whole, cs₁⟩, hwhole, ⟨fraction, cs₂⟩, hfraction, ⟨exponent, cs₃⟩, hexponent, he⟩ := h
  cases he
  have h₂ : cs₂ ≠ [] := by
    rintro rfl
    cases hexponent
    exact hr rfl
  have h₁ : cs₁ ≠ [] := by
    rintro rfl
    cases hfraction
    exact h₂ rfl
  simp only [readUnsigned, readWhole_append hwhole h₁, readFraction_append hfraction h₂,
    readExponent_append hexponent hr, Option.bind_eq_bind, Option.bind_some, Option.pure_def]

theorem readNumber_of_ne {c : Char} (hc : c ≠ '-') (cs : List Char) :
    readNumber (c :: cs) = readUnsigned (c :: cs) := by
  rw [readNumber]
  intro _ he
  exact hc (List.cons.inj he).1

/-- A number that ends before the text does. -/
theorem readNumber_append (h : readNumber cs = some (ds, rest)) (hr : rest ≠ []) (q : List Char) :
    readNumber (cs ++ q) = some (ds, rest ++ q) := by
  match cs, h with
  | [], h => cases h
  | c :: cs, h =>
    by_cases hc : c = '-'
    · subst hc
      simp only [readNumber, Option.map_eq_some_iff] at h
      obtain ⟨⟨ds', rest'⟩, hread, he⟩ := h
      cases he
      rw [List.cons_append, readNumber, readUnsigned_append hread hr]
      rfl
    · rw [readNumber_of_ne hc] at h
      have h' := readUnsigned_append h hr q
      rw [List.cons_append] at h' ⊢
      rw [readNumber_of_ne hc, h']

/-- How a number begins. -/
theorem isDigit_of_readNumber {c : Char} (h : readNumber (c :: cs) = some (ds, rest)) :
    c = '-' ∨ c.isDigit = true := by
  by_cases hc : c = '-'
  · exact .inl hc
  · right
    by_contra hd
    have hnone : readDigits (c :: cs) = none := by
      rw [readDigits, List.span_eq_takeWhile_dropWhile, List.takeWhile_cons_of_neg hd]
    have hwhole : readWhole (c :: cs) = none := by rw [readWhole, hnone]
    rw [readNumber_of_ne hc, readUnsigned, hwhole] at h
    cases h

/-! ## 3. Values -/

theorem skipBlank_skipBlank (cs : List Char) : skipBlank (skipBlank cs) = skipBlank cs := by
  cases h : skipBlank cs with
  | nil => rfl
  | cons c ds =>
    have hb : isBlank c = false :=
      Text.head?_dropWhile_eq_false isBlank cs c (by rw [← skipBlank, h]; rfl)
    exact skipBlank_cons hb ds

theorem readValue_skipBlank (fuel : Nat) (cs : List Char) :
    readValue fuel (skipBlank cs) = readValue fuel cs := by
  cases fuel with
  | zero => rfl
  | succ fuel => rw [readValue, readValue, skipBlank_skipBlank]

theorem readValue_minus (fuel : Nat) (cs : List Char) :
    readValue (fuel + 1) ('-' :: cs) =
      (readNumber ('-' :: cs)).map fun (ds, rest) => (number (String.ofList ds), rest) := by
  rw [readValue, skipBlank_cons (by decide)]
  rfl

/-- What the readers of some fuel read, readers of more fuel read from longer texts. -/
structure Extends (fuel : Nat) : Prop where
  value {cs rest : List Char} {j : Json} (h : readValue fuel cs = some (j, rest))
    (hr : rest ≠ [] ∨ ∀ digits, j ≠ number digits) {more : Nat} (hf : fuel ≤ more) (q : List Char) :
    readValue more (cs ++ q) = some (j, rest ++ q)
  elements {cs rest : List Char} {xs : List Json} (h : readElements fuel cs = some (xs, rest))
    {more : Nat} (hf : fuel ≤ more) (q : List Char) :
    readElements more (cs ++ q) = some (xs, rest ++ q)
  members {cs rest : List Char} {ms : List (Option String × Json)}
    (h : readMembers fuel cs = some (ms, rest)) {more : Nat} (hf : fuel ≤ more) (q : List Char) :
    readMembers more (cs ++ q) = some (ms, rest ++ q)

theorem Extends.readElements_succ {fuel : Nat} (ih : Extends fuel) {xs : List Json}
    (h : readElements (fuel + 1) cs = some (xs, rest)) {more : Nat} (hf : fuel ≤ more)
    (q : List Char) : readElements (more + 1) (cs ++ q) = some (xs, rest ++ q) := by
  rw [readElements] at h
  simp only [Option.bind_eq_bind, Option.bind_eq_some_iff] at h
  obtain ⟨⟨x, cs₁⟩, hvalue, h⟩ := h
  have hnext : skipBlank cs₁ ≠ [] := by
    intro he
    simp only [he] at h
    cases h
  have hne : cs₁ ≠ [] := fun he => hnext (by rw [he]; rfl)
  rw [readElements_of_value (ih.value hvalue (.inl hne) hf q), skipBlank_append hnext]
  simp only at h
  split at h
  next cs₂ hcomma =>
    simp only [Option.map_eq_some_iff] at h
    obtain ⟨⟨xs', rest'⟩, hread, he⟩ := h
    cases he
    simp only [hcomma, List.cons_append, ih.elements hread hf q, Option.map_some]
  next cs₂ hbracket =>
    cases h
    simp only [hbracket, List.cons_append]
  next => cases h

theorem Extends.readMembers_succ {fuel : Nat} (ih : Extends fuel)
    {ms : List (Option String × Json)} (h : readMembers (fuel + 1) cs = some (ms, rest))
    {more : Nat} (hf : fuel ≤ more) (q : List Char) :
    readMembers (more + 1) (cs ++ q) = some (ms, rest ++ q) := by
  rw [readMembers] at h ⊢
  split at h
  next cs₁ hquote =>
    simp only [Option.bind_eq_bind, Option.bind_eq_some_iff] at h
    obtain ⟨⟨key, cs₂⟩, htext, h⟩ := h
    simp only at h
    split at h
    next cs₃ hcolon =>
      simp only [Option.bind_eq_some_iff] at h
      obtain ⟨⟨x, cs₄⟩, hvalue, h⟩ := h
      -- A comma or a brace stands behind the value, so the value does not end the text.
      have hnext : skipBlank cs₄ ≠ [] := by
        intro he
        simp only [he] at h
        cases h
      have hne : cs₄ ≠ [] := fun he => hnext (by rw [he]; rfl)
      have hvalue' := ih.value hvalue (.inl hne) hf q
      rw [skipBlank_append (by rw [hquote]; simp), hquote]
      simp only [List.cons_append, readText_append htext, Option.bind_eq_bind, Option.bind_some]
      rw [skipBlank_append (by rw [hcolon]; simp), hcolon]
      simp only [List.cons_append, hvalue', Option.bind_some, skipBlank_append hnext]
      simp only at h
      split at h
      next cs₅ hcomma =>
        simp only [Option.map_eq_some_iff] at h
        obtain ⟨⟨ms', rest'⟩, hread, he⟩ := h
        cases he
        simp only [hcomma, List.cons_append, ih.members hread hf q, Option.map_some]
      next cs₅ hbrace =>
        cases h
        simp only [hbrace, List.cons_append]
      next => cases h
    next => cases h
  next => cases h

theorem readValue_nil (fuel : Nat) : readValue fuel [] = none := by
  cases fuel <;> rfl

theorem readElements_nil (fuel : Nat) : readElements fuel [] = none := by
  cases fuel with
  | zero => rfl
  | succ fuel =>
    rw [readElements, readValue_nil]
    rfl

theorem readMembers_nil (fuel : Nat) : readMembers fuel [] = none := by
  cases fuel <;> rfl

/-- An array is read from longer texts, too. -/
theorem Extends.readValue_array {fuel : Nat} (ih : Extends fuel) {j : Json}
    (h : readValue (fuel + 1) ('[' :: cs) = some (j, rest)) {more : Nat} (hf : fuel ≤ more)
    (q : List Char) : readValue (more + 1) ('[' :: (cs ++ q)) = some (j, rest ++ q) := by
  cases hskip : skipBlank cs with
  | nil =>
    rw [readValue, skipBlank_cons (by decide)] at h
    simp only [hskip, readElements_nil] at h
    cases h
  | cons c ds =>
    have hmore : skipBlank (cs ++ q) = c :: (ds ++ q) := by
      rw [skipBlank_append (by rw [hskip]; simp), hskip]
      rfl
    by_cases hc : c = ']'
    · subst hc
      rw [readValue, skipBlank_cons (by decide)] at h ⊢
      simp only [hskip] at h
      cases h
      simp only [hmore]
    · rw [readValue_bracket fuel hskip hc] at h
      simp only [Option.map_eq_some_iff] at h
      obtain ⟨⟨parts, rest'⟩, hread, he⟩ := h
      cases he
      have hread' := ih.elements hread hf q
      rw [List.cons_append] at hread'
      rw [readValue_bracket more hmore hc, hread']
      rfl

/-- An object is read from longer texts, too. -/
theorem Extends.readValue_object {fuel : Nat} (ih : Extends fuel) {j : Json}
    (h : readValue (fuel + 1) ('{' :: cs) = some (j, rest)) {more : Nat} (hf : fuel ≤ more)
    (q : List Char) : readValue (more + 1) ('{' :: (cs ++ q)) = some (j, rest ++ q) := by
  cases hskip : skipBlank cs with
  | nil =>
    rw [readValue, skipBlank_cons (by decide)] at h
    simp only [hskip, readMembers_nil] at h
    cases h
  | cons c ds =>
    have hmore : skipBlank (cs ++ q) = c :: (ds ++ q) := by
      rw [skipBlank_append (by rw [hskip]; simp), hskip]
      rfl
    by_cases hc : c = '}'
    · subst hc
      rw [readValue, skipBlank_cons (by decide)] at h ⊢
      simp only [hskip] at h
      cases h
      simp only [hmore]
    · rw [readValue_brace fuel hskip hc] at h
      simp only [Option.map_eq_some_iff] at h
      obtain ⟨⟨parts, rest'⟩, hread, he⟩ := h
      cases he
      have hread' := ih.members hread hf q
      rw [List.cons_append] at hread'
      rw [readValue_brace more hmore hc, hread']
      rfl

theorem Extends.readValue_succ {fuel : Nat} (ih : Extends fuel) {j : Json}
    (h : readValue (fuel + 1) cs = some (j, rest))
    (hr : rest ≠ [] ∨ ∀ digits, j ≠ number digits) {more : Nat} (hf : fuel ≤ more) (q : List Char) :
    readValue (more + 1) (cs ++ q) = some (j, rest ++ q) := by
  have hopen := h
  rw [← readValue_skipBlank] at hopen
  rw [readValue] at h
  have hne : skipBlank cs ≠ [] := by
    intro he
    rw [he] at h
    cases h
  rw [← readValue_skipBlank, skipBlank_append hne]
  split at h
  next cs₁ hnull =>
    cases h
    rw [hnull]
    rfl
  next cs₁ htrue =>
    cases h
    rw [htrue]
    rfl
  next cs₁ hfalse =>
    cases h
    rw [hfalse]
    rfl
  next cs₁ hquote =>
    simp only [Option.map_eq_some_iff] at h
    obtain ⟨⟨s, rest'⟩, hread, he⟩ := h
    cases he
    rw [hquote, List.cons_append, readValue, skipBlank_cons (by decide)]
    simp only [readText_append hread, Option.map_some]
  next cs₁ hbracket =>
    rw [hbracket] at hopen ⊢
    exact ih.readValue_array hopen hf q
  next cs₁ hbrace =>
    rw [hbrace] at hopen ⊢
    exact ih.readValue_object hopen hf q
  next =>
    simp only [Option.map_eq_some_iff] at h
    obtain ⟨⟨ds, rest'⟩, hread, he⟩ := h
    cases he
    -- Only a number may be cut at its end and still be one.
    have hrest : rest' ≠ [] := hr.resolve_right fun hnumber => hnumber _ rfl
    have hread' := readNumber_append hread hrest q
    cases hskip : skipBlank cs with
    | nil => exact absurd hskip hne
    | cons c cs₁ =>
      rw [hskip] at hread hread'
      rw [List.cons_append] at hread' ⊢
      rcases isDigit_of_readNumber hread with rfl | hd
      · rw [readValue_minus, hread']
        rfl
      · rw [readValue_digit hd, hread']
        rfl

/-- **What is read from a text is read from every longer one.** -/
theorem extends_fuel (fuel : Nat) : Extends fuel := by
  induction fuel with
  | zero => constructor <;> intro _ _ _ h <;> cases h
  | succ fuel ih =>
    refine ⟨fun h hr more hf q => ?_, fun h more hf q => ?_, fun h more hf q => ?_⟩ <;>
      obtain ⟨more, rfl⟩ : ∃ n, more = n + 1 := ⟨more - 1, by omega⟩
    · exact ih.readValue_succ h hr (by omega) q
    · exact ih.readElements_succ h (by omega) q
    · exact ih.readMembers_succ h (by omega) q

/-! ## 4. Torn objects -/

theorem ofMembers_ne_number (ms : List (Option String × Json)) (digits : String) :
    ofMembers ms ≠ number digits := by
  rw [ofMembers]
  split <;> simp

/-- What begins with a brace is no number. -/
theorem ne_number_of_readValue {fuel : Nat} {j : Json}
    (h : readValue fuel ('{' :: cs) = some (j, rest)) (digits : String) : j ≠ number digits := by
  cases fuel with
  | zero => cases h
  | succ fuel =>
    rw [readValue, skipBlank_cons (by decide)] at h
    simp only at h
    split at h
    · cases h
      simp
    · simp only [Option.map_eq_some_iff] at h
      obtain ⟨⟨ms, rest'⟩, -, he⟩ := h
      cases he
      exact ofMembers_ne_number ms digits

theorem layOut_object (level : Nat) (ms : List (String × Json)) :
    ∃ cs, layOut level (object ms) = '{' :: cs := by
  cases ms with
  | nil => exact ⟨_, rfl⟩
  | cons m ms => exact ⟨_, rfl⟩

/-- **A torn object says nothing**: no part from the beginning of its text is a text by itself. -/
theorem read_take_layOut {ms : List (String × Json)} (hj : (object ms).Plain) {k : Nat}
    (hk : k < (layOut 0 (object ms)).length) :
    read (String.ofList ((layOut 0 (object ms)).take k)) = none := by
  rw [read, String.toList_ofList]
  split
  case h_2 => rfl
  next j rest hread =>
    split
    case isFalse => rfl
    case isTrue hblank =>
      obtain ⟨cs, hcs⟩ := layOut_object 0 ms
      have hnumber : ∀ digits, j ≠ number digits := by
        cases k with
        | zero =>
          rw [List.take_zero, readValue_nil] at hread
          cases hread
        | succ k =>
          rw [hcs, List.take_succ_cons] at hread
          exact ne_number_of_readValue hread
      have hlen : ((layOut 0 (object ms)).take k).length ≤ (layOut 0 (object ms)).length :=
        List.length_take_le' ..
      have hfuel : 2 * ((layOut 0 (object ms)).take k).length + 2 ≤
          2 * (layOut 0 (object ms)).length + 2 := by omega
      have hlonger := (extends_fuel _).value hread (.inr hnumber) hfuel
        ((layOut 0 (object ms)).drop k)
      have hwhole := readValue_layOut 0 (2 * (layOut 0 (object ms)).length + 2) [] ends_nil
        (object ms) hj (by omega)
      rw [List.append_nil] at hwhole
      rw [List.take_append_drop, hwhole] at hlonger
      -- The whole text would be read up to where it was torn.
      have hrest : rest ++ (layOut 0 (object ms)).drop k = [] :=
        (congrArg Prod.snd (Option.some.inj hlonger)).symm
      have hdrop := (List.append_eq_nil_iff.mp hrest).2
      rw [List.drop_eq_nil_iff] at hdrop
      omega

end ScriptPlugins.Json
