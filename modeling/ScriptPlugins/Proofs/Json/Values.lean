import ScriptPlugins.Proofs.Json.Strings
import ScriptPlugins.Proofs.Text.Runs

/-!
# Values — a laid out value is read back

A value is read from its own text and from the character behind it, which must not go on with a
number.  The fuel of the reader is spent once for each value and once for each element or member,
and both are written with at least one character.
-/

namespace ScriptPlugins.Json

/-! ## 1. Values that can be written -/

mutual

/-- A value whose numbers are natural and whose strings are Unicode. -/
def Plain : Json → Prop
  | number digits => ∃ n, digits = String.ofList (Text.decimal n)
  | unsound => False
  | array xs => PlainList xs
  | object ms => PlainMembers ms
  | null | bool _ | text _ => True

def PlainList : List Json → Prop
  | [] => True
  | x :: xs => x.Plain ∧ PlainList xs

def PlainMembers : List (String × Json) → Prop
  | [] => True
  | (_, x) :: ms => x.Plain ∧ PlainMembers ms

end

/-- A text that does not go on with a number. -/
def Ends (rest : List Char) : Prop :=
  ∀ c ∈ rest.head?, c.isDigit = false ∧ c ≠ '.' ∧ c ≠ 'e' ∧ c ≠ 'E'

theorem ends_nil : Ends [] := by simp [Ends]

theorem ends_cons {c : Char} (cs : List Char)
    (h : c.isDigit = false ∧ c ≠ '.' ∧ c ≠ 'e' ∧ c ≠ 'E') :
    Ends (c :: cs) := by simpa [Ends] using h

theorem ends_comma (cs : List Char) : Ends (',' :: cs) := ends_cons cs (by decide)

theorem ends_newLine (level : Nat) (cs : List Char) : Ends (newLine level ++ cs) :=
  ends_cons _ (by decide)

/-! ## 2. Blanks and numbers -/

theorem skipBlank_newLine (level : Nat) (cs : List Char) :
    skipBlank (newLine level ++ cs) = skipBlank cs := by
  rw [skipBlank, List.dropWhile_append_of_pos]
  · rfl
  · intro c hc
    rcases List.mem_cons.mp hc with rfl | hc
    · decide
    · rw [List.eq_of_mem_replicate hc]
      decide

theorem skipBlank_cons {c : Char} (h : isBlank c = false) (cs : List Char) :
    skipBlank (c :: cs) = c :: cs := List.dropWhile_cons_of_neg (by simp [h])

theorem readDigits_decimal (n : Nat) {rest : List Char} (h : Ends rest) :
    readDigits (Text.decimal n ++ rest) = some (Text.decimal n, rest) := by
  have hs : (Text.decimal n ++ rest).span Char.isDigit = (Text.decimal n, rest) :=
    Text.span_append_of_head (fun _ hc => Text.isDigit_of_mem_decimal hc) fun c hc => (h c hc).1
  rw [readDigits, hs]
  cases hd : Text.decimal n with
  | nil => exact absurd hd (Text.decimal_ne_nil n)
  | cons d ds => rfl

theorem readWhole_decimal (n : Nat) {rest : List Char} (h : Ends rest) :
    readWhole (Text.decimal n ++ rest) = some (Text.decimal n, rest) := by
  rw [readWhole, readDigits_decimal n h]
  split
  next d ds _ he =>
    -- A leading zero would be that of the number zero, which has no further digit.
    have hd : Text.decimal n = '0' :: d :: ds := congrArg Prod.fst (Option.some.inj he)
    by_cases hn : n = 0
    · rw [hn] at hd
      cases hd
    · exact absurd (by rw [hd]; rfl) (Text.head?_decimal_ne_zero hn)
  next => rfl

theorem readFraction_of_ends {rest : List Char} (h : Ends rest) :
    readFraction rest = some ([], rest) := by
  match rest with
  | [] => rfl
  | c :: cs =>
    rw [readFraction]
    intro _ hc
    exact absurd (List.cons.inj hc).1 (h c rfl).2.1

theorem readExponent_of_ends {rest : List Char} (h : Ends rest) :
    readExponent rest = some ([], rest) := by
  match rest with
  | [] => rfl
  | c :: cs =>
    have hc := h c rfl
    rw [readExponent.eq_def]
    simp only [hc.2.2.1, hc.2.2.2, or_self, if_false]

theorem readNumber_decimal (n : Nat) {rest : List Char} (h : Ends rest) :
    readNumber (Text.decimal n ++ rest) = some (Text.decimal n, rest) := by
  have hu : readUnsigned (Text.decimal n ++ rest) = some (Text.decimal n, rest) := by
    rw [readUnsigned, readWhole_decimal n h]
    show (readFraction rest >>= _) = _
    rw [readFraction_of_ends h]
    show (readExponent rest >>= _) = _
    rw [readExponent_of_ends h]
    simp
  rw [readNumber]
  · exact hu
  · intro cs hcs
    cases hd : Text.decimal n with
    | nil => exact absurd hd (Text.decimal_ne_nil n)
    | cons d ds =>
      rw [hd] at hcs
      have hdig : d.isDigit := Text.isDigit_of_mem_decimal (n := n) (by rw [hd]; simp)
      rw [(List.cons.inj hcs).1] at hdig
      cases hdig

/-! ## 3. How values begin -/

/-- A character that a number begins with begins nothing else. -/
theorem readValue_digit {d : Char} (hd : d.isDigit) (fuel : Nat) (cs : List Char) :
    readValue (fuel + 1) (d :: cs) =
      (readNumber (d :: cs)).map fun (ds, rest) => (number (String.ofList ds), rest) := by
  have hb : isBlank d = false := by
    simp only [isBlank, Bool.or_eq_false_iff, decide_eq_false_iff_not]
    refine ⟨⟨⟨?_, ?_⟩, ?_⟩, ?_⟩ <;> (rintro rfl; cases hd)
  rw [readValue, skipBlank_cons hb]
  split
  all_goals first
    | rfl
    | (next h => obtain ⟨rfl, -⟩ := List.cons.inj h; cases hd)

theorem readValue_number (n fuel : Nat) {rest : List Char} (h : Ends rest) :
    readValue (fuel + 1) (Text.decimal n ++ rest) =
      some (number (String.ofList (Text.decimal n)), rest) := by
  have hn := readNumber_decimal n h
  cases hd : Text.decimal n with
  | nil => exact absurd hd (Text.decimal_ne_nil n)
  | cons d ds =>
    have hdig : d.isDigit := Text.isDigit_of_mem_decimal (n := n) (by rw [hd]; simp)
    rw [hd, List.cons_append] at hn
    rw [List.cons_append, readValue_digit hdig, hn]
    rfl

theorem readValue_quote (fuel : Nat) (s : String) (rest : List Char) :
    readValue (fuel + 1) (quote s ++ rest) = some (text s, rest) := by
  rw [quote, List.append_assoc, List.cons_append, List.singleton_append, readValue,
    skipBlank_cons (by decide)]
  show (readText (s.toList.flatMap escape ++ '"' :: rest)).map _ = _
  rw [readText_quote]
  rfl

/-- The first character of a value is neither blank nor a closing mark. -/
theorem head?_layOut (level : Nat) (j : Json) (hj : j.Plain) :
    ∃ c cs, layOut level j = c :: cs ∧ isBlank c = false ∧ c ≠ ']' ∧ c ≠ '}' := by
  match j with
  | null => exact ⟨_, _, rfl, by decide⟩
  | bool true => exact ⟨_, _, rfl, by decide⟩
  | bool false => exact ⟨_, _, rfl, by decide⟩
  | text s => exact ⟨_, _, rfl, by decide⟩
  | array [] => exact ⟨_, _, rfl, by decide⟩
  | array (x :: xs) => exact ⟨_, _, rfl, by decide⟩
  | object [] => exact ⟨_, _, rfl, by decide⟩
  | object (m :: ms) => exact ⟨_, _, rfl, by decide⟩
  | unsound => exact ⟨_, _, rfl, by decide⟩
  | number digits =>
    obtain ⟨n, rfl⟩ := hj
    cases hd : Text.decimal n with
    | nil => exact absurd hd (Text.decimal_ne_nil n)
    | cons d ds =>
      have hdig : d.isDigit := Text.isDigit_of_mem_decimal (n := n) (by rw [hd]; simp)
      refine ⟨d, ds, by rw [layOut, String.toList_ofList], ?_⟩
      refine ⟨?_, ?_, ?_⟩
      · simp only [isBlank, Bool.or_eq_false_iff, decide_eq_false_iff_not]
        refine ⟨⟨⟨?_, ?_⟩, ?_⟩, ?_⟩ <;> (rintro rfl; cases hdig)
      · rintro rfl; cases hdig
      · rintro rfl; cases hdig

/-- A value has a text, so its reader is left some fuel. -/
theorem exists_fuel {level fuel : Nat} {j : Json} (hj : j.Plain)
    (hf : 2 * (layOut level j).length ≤ fuel) : ∃ n, fuel = n + 1 := by
  obtain ⟨c, cs, hcs, -⟩ := head?_layOut level j hj
  rw [hcs, List.length_cons] at hf
  exact ⟨fuel - 1, by omega⟩

theorem readValue_bracket (fuel : Nat) {c : Char} {cs ds : List Char}
    (h : skipBlank cs = c :: ds) (hc : c ≠ ']') :
    readValue (fuel + 1) ('[' :: cs) =
      (readElements fuel (c :: ds)).map fun (xs, rest) => (array xs, rest) := by
  rw [readValue, skipBlank_cons (by decide)]
  simp only [h]
  split
  next he => exact absurd (List.cons.inj he).1 hc
  next => rfl

theorem readValue_brace (fuel : Nat) {c : Char} {cs ds : List Char}
    (h : skipBlank cs = c :: ds) (hc : c ≠ '}') :
    readValue (fuel + 1) ('{' :: cs) =
      (readMembers fuel (c :: ds)).map fun (ms, rest) => (ofMembers ms, rest) := by
  rw [readValue, skipBlank_cons (by decide)]
  simp only [h]
  split
  next he => exact absurd (List.cons.inj he).1 hc
  next => rfl

theorem ofMembers_some (ms : List (String × Json)) :
    ofMembers (ms.map fun (key, x) => (some key, x)) = object ms := by
  have h : List.mapM (fun m : Option String × Json => m.1.map (·, m.2))
      (ms.map fun m => (some m.1, m.2)) = some ms := by
    induction ms with
    | nil => rfl
    | cons m ms ih =>
      rw [List.map_cons, List.mapM_cons, ih]
      rfl
  rw [ofMembers, h]

/-! ## 4. The round trip -/

theorem layOutList_cons (level : Nat) (x y : Json) (xs : List Json) :
    layOutList level (x :: y :: xs) =
      layOut level x ++ ',' :: newLine level ++ layOutList level (y :: xs) := by
  rw [layOutList]
  intro h
  cases h

theorem layOutMembers_cons (level : Nat) (key : String) (x : Json) (m : String × Json)
    (ms : List (String × Json)) :
    layOutMembers level ((key, x) :: m :: ms) = quote key ++ ':' :: ' ' :: layOut level x ++ ',' ::
      newLine level ++ layOutMembers level (m :: ms) := by
  rw [layOutMembers]
  intro h
  cases h

theorem layOutList_eq_cons (level : Nat) {x : Json} {xs : List Json} (h : PlainList (x :: xs))
    (rest : List Char) :
    ∃ c ds, layOutList level (x :: xs) ++ rest = c :: ds ∧ isBlank c = false ∧ c ≠ ']' := by
  obtain ⟨c, cs, hc, hb, hn, -⟩ := head?_layOut level x h.1
  cases xs with
  | nil => exact ⟨c, _, by rw [layOutList, hc]; rfl, hb, hn⟩
  | cons y ys => exact ⟨c, _, by rw [layOutList_cons, hc]; rfl, hb, hn⟩

theorem layOutMembers_eq_cons (level : Nat) (m : String × Json) (ms : List (String × Json))
    (rest : List Char) : ∃ ds, layOutMembers level (m :: ms) ++ rest = '"' :: ds := by
  cases ms with
  | nil => exact ⟨_, rfl⟩
  | cons m' ms => exact ⟨_, by rw [layOutMembers_cons]; rfl⟩

theorem readValue_newLine (fuel level : Nat) (cs : List Char) :
    readValue fuel (newLine level ++ cs) = readValue fuel cs := by
  cases fuel with
  | zero => rfl
  | succ fuel => rw [readValue, readValue, skipBlank_newLine]

theorem readValue_space (fuel : Nat) (cs : List Char) :
    readValue fuel (' ' :: cs) = readValue fuel cs := by
  cases fuel with
  | zero => rfl
  | succ fuel => rw [readValue, readValue]; rfl

theorem readElements_newLine (fuel level : Nat) (cs : List Char) :
    readElements fuel (newLine level ++ cs) = readElements fuel cs := by
  cases fuel with
  | zero => rfl
  | succ fuel => rw [readElements, readElements, readValue_newLine]

theorem readMembers_newLine (fuel level : Nat) (cs : List Char) :
    readMembers fuel (newLine level ++ cs) = readMembers fuel cs := by
  cases fuel with
  | zero => rfl
  | succ fuel => rw [readMembers, readMembers, skipBlank_newLine]

/-- How the reader goes on behind an element. -/
theorem readElements_of_value {fuel : Nat} {cs rest : List Char} {x : Json}
    (h : readValue fuel cs = some (x, rest)) :
    readElements (fuel + 1) cs =
      match skipBlank rest with
      | ',' :: cs => (readElements fuel cs).map fun (xs, rest) => (x :: xs, rest)
      | ']' :: cs => some ([x], cs)
      | _ => none := by
  rw [readElements, h]
  rfl

/-- How the reader goes on behind a key and its value. -/
theorem readMembers_of_value {fuel : Nat} {cs rest : List Char} {key : String} {x : Json}
    (h : readValue fuel cs = some (x, rest)) :
    readMembers (fuel + 1) (quote key ++ ':' :: cs) =
      match skipBlank rest with
      | ',' :: cs => (readMembers fuel cs).map fun (ms, rest) => ((some key, x) :: ms, rest)
      | '}' :: cs => some ([(some key, x)], cs)
      | _ => none := by
  rw [quote, List.append_assoc, List.cons_append, List.singleton_append, readMembers,
    skipBlank_cons (by decide)]
  show (readText (key.toList.flatMap escape ++ '"' :: (':' :: cs)) >>= _) = _
  rw [readText_quote]
  simp only [Option.bind_eq_bind, Option.bind_some, skipBlank_cons (c := ':') (by decide)]
  generalize readValue fuel cs = r at h ⊢
  subst h
  rfl

mutual

/-- **A laid out value is read back**, with as much fuel as twice the length of its text. -/
theorem readValue_layOut (level fuel : Nat) (rest : List Char) (hr : Ends rest) :
    ∀ (j : Json), j.Plain → 2 * (layOut level j).length ≤ fuel →
      readValue fuel (layOut level j ++ rest) = some (j, rest)
  | null, hj, hf => by
    obtain ⟨fuel, rfl⟩ := exists_fuel hj hf
    rfl
  | bool true, hj, hf => by
    obtain ⟨fuel, rfl⟩ := exists_fuel hj hf
    rfl
  | bool false, hj, hf => by
    obtain ⟨fuel, rfl⟩ := exists_fuel hj hf
    rfl
  | unsound, hj, _ => absurd hj (by simp [Plain])
  | number digits, hj, hf => by
    obtain ⟨fuel, rfl⟩ := exists_fuel hj hf
    obtain ⟨n, rfl⟩ := hj
    rw [layOut, String.toList_ofList]
    exact readValue_number n fuel hr
  | text s, hj, hf => by
    obtain ⟨fuel, rfl⟩ := exists_fuel hj hf
    exact readValue_quote fuel s rest
  | array [], hj, hf => by
    obtain ⟨fuel, rfl⟩ := exists_fuel hj hf
    rfl
  | object [], hj, hf => by
    obtain ⟨fuel, rfl⟩ := exists_fuel hj hf
    rfl
  | array (x :: xs), hj, hf => by
    obtain ⟨fuel, rfl⟩ := exists_fuel hj hf
    rw [layOut] at hf ⊢
    simp only [List.length_append, List.length_cons] at hf
    have hj : PlainList (x :: xs) := hj
    -- Elements begin with neither a blank nor a closing bracket, so the array is not read as an
    -- empty one.
    obtain ⟨c, ds, hds, hb, hn⟩ := layOutList_eq_cons (level + 1) hj (newLine level ++ ']' :: rest)
    have hskip : skipBlank (newLine (level + 1) ++ c :: ds) = c :: ds := by
      rw [skipBlank_newLine, skipBlank_cons hb]
    have hread := readElements_layOut (level + 1) fuel level rest (x :: xs) hj (by simp)
      (by omega)
    simp only [List.cons_append, List.append_assoc, List.nil_append] at hread ⊢
    rw [hds] at hread ⊢
    rw [readValue_bracket fuel hskip hn, hread]
    rfl
  | object ((key, x) :: ms), hj, hf => by
    obtain ⟨fuel, rfl⟩ := exists_fuel hj hf
    rw [layOut] at hf ⊢
    simp only [List.length_append, List.length_cons] at hf
    have hj : PlainMembers ((key, x) :: ms) := hj
    obtain ⟨ds, hds⟩ := layOutMembers_eq_cons (level + 1) (key, x) ms (newLine level ++ '}' :: rest)
    have hskip : skipBlank (newLine (level + 1) ++ '"' :: ds) = '"' :: ds := by
      rw [skipBlank_newLine, skipBlank_cons (by decide)]
    have hread := readMembers_layOut (level + 1) fuel level rest ((key, x) :: ms) hj (by simp)
      (by omega)
    simp only [List.cons_append, List.append_assoc, List.nil_append] at hread ⊢
    rw [hds] at hread ⊢
    rw [readValue_brace fuel hskip (by decide), hread, Option.map_some]
    simp only [ofMembers_some]

theorem readElements_layOut (level fuel outer : Nat) (rest : List Char) :
    ∀ (xs : List Json), PlainList xs → xs ≠ [] → 2 * (layOutList level xs).length + 1 ≤ fuel →
      readElements fuel (layOutList level xs ++ (newLine outer ++ ']' :: rest)) = some (xs, rest)
  | [], _, hne, _ => absurd rfl hne
  | [x], hx, _, hf => by
    rw [layOutList] at hf ⊢
    obtain ⟨fuel, rfl⟩ : ∃ n, fuel = n + 1 := ⟨fuel - 1, by omega⟩
    have hv := readValue_layOut level fuel (newLine outer ++ ']' :: rest) (ends_newLine _ _) x hx.1
      (by omega)
    rw [readElements_of_value hv, skipBlank_newLine, skipBlank_cons (by decide)]
    rfl
  | x :: y :: ys, hx, _, hf => by
    rw [layOutList_cons] at hf ⊢
    simp only [List.length_append, List.length_cons] at hf
    obtain ⟨fuel, rfl⟩ : ∃ n, fuel = n + 1 := ⟨fuel - 1, by omega⟩
    have hv := readValue_layOut level fuel (',' :: (newLine level ++ (layOutList level (y :: ys) ++
      (newLine outer ++ ']' :: rest)))) (ends_comma _) x hx.1 (by omega)
    have hread := readElements_layOut level fuel outer rest (y :: ys) hx.2 (by simp) (by omega)
    simp only [List.cons_append, List.append_assoc]
    rw [readElements_of_value hv, skipBlank_cons (by decide)]
    simp only [readElements_newLine, hread, Option.map_some]

theorem readMembers_layOut (level fuel outer : Nat) (rest : List Char) :
    ∀ (ms : List (String × Json)), PlainMembers ms → ms ≠ [] →
      2 * (layOutMembers level ms).length + 1 ≤ fuel →
      readMembers fuel (layOutMembers level ms ++ (newLine outer ++ '}' :: rest)) =
        some (ms.map (fun (key, x) => (some key, x)), rest)
  | [], _, hne, _ => absurd rfl hne
  | [(key, x)], hx, _, hf => by
    rw [layOutMembers] at hf ⊢
    simp only [List.length_append, List.length_cons] at hf
    obtain ⟨fuel, rfl⟩ : ∃ n, fuel = n + 1 := ⟨fuel - 1, by omega⟩
    have hv := readValue_layOut level fuel (newLine outer ++ '}' :: rest) (ends_newLine _ _) x hx.1
      (by omega)
    rw [← readValue_space] at hv
    simp only [List.cons_append, List.append_assoc]
    rw [readMembers_of_value hv, skipBlank_newLine, skipBlank_cons (by decide)]
    rfl
  | (key, x) :: m :: ms, hx, _, hf => by
    rw [layOutMembers_cons] at hf ⊢
    simp only [List.length_append, List.length_cons] at hf
    obtain ⟨fuel, rfl⟩ : ∃ n, fuel = n + 1 := ⟨fuel - 1, by omega⟩
    have hv := readValue_layOut level fuel
      (',' :: (newLine level ++ (layOutMembers level (m :: ms) ++
      (newLine outer ++ '}' :: rest)))) (ends_comma _) x hx.1 (by omega)
    have hread := readMembers_layOut level fuel outer rest (m :: ms) hx.2 (by simp) (by omega)
    rw [← readValue_space] at hv
    simp only [List.cons_append, List.append_assoc]
    rw [readMembers_of_value hv, skipBlank_cons (by decide)]
    simp only [readMembers_newLine, hread, Option.map_some, List.map_cons]

end

/-- The laid out text of a value is read back. -/
theorem read_printLaidOut {j : Json} (hj : j.Plain) : read j.printLaidOut = some j := by
  have h := readValue_layOut 0 (2 * (layOut 0 j).length + 2) [] ends_nil j hj (by omega)
  rw [List.append_nil] at h
  rw [read, printLaidOut, String.toList_ofList]
  simp only [h]
  rfl

end ScriptPlugins.Json
