import ScriptPlugins.Proofs.Toml.Strings
import ScriptPlugins.Toml.Reader

/-!
# TOML lines — comments, and keys with texts

A comment goes on to the first character that may not stand in one, which has to end the line.  A
key with a text in quotes adds this key to the open table and nothing else, whatever the text is.
-/

namespace ScriptPlugins.Toml

/-! ## 1. Comments -/

/-- A comment is read up to the end of its line. -/
theorem readLine_comment {cs : List Char} (h : ∀ c ∈ cs, isPrintable c = true) (d : Draft)
    (rest : List Char) : readLine d ('#' :: (cs ++ '\n' :: rest)) = some (d, rest) := by
  have hcomment : skipComment ('#' :: (cs ++ '\n' :: rest)) = '\n' :: rest := by
    rw [skipComment]
    exact Text.dropWhile_append_of_head h (by intro c hc; cases hc; decide)
  have hspace (ds : List Char) : skipSpace ('#' :: ds) = '#' :: ds :=
    List.dropWhile_cons_of_neg (by decide)
  have hend : endOfLine ('#' :: (cs ++ '\n' :: rest)) = some rest := by
    rw [endOfLine, hspace, hcomment]
    rfl
  rw [readLine, hspace]
  split
  · next heq => exact absurd (List.cons.inj heq).1 (by decide)
  · next heq => exact absurd (List.cons.inj heq).1 (by decide)
  · rw [hend]

/-! ## 2. Keys -/

/-- A key that needs no quotes. -/
def IsBareKey (key : String) : Prop := key ≠ "" ∧ ∀ c ∈ key.toList, isBareKeyPart c = true

instance (key : String) : Decidable (IsBareKey key) :=
  decidable_of_iff (key ≠ "" ∧ key.toList.all isBareKeyPart = true) (by rw [List.all_eq_true]; rfl)

theorem IsBareKey.exists_cons {key : String} (h : IsBareKey key) :
    ∃ c cs, key.toList = c :: cs ∧ isBareKeyPart c = true := by
  obtain ⟨c, cs, hcs⟩ : ∃ c cs, key.toList = c :: cs :=
    List.exists_cons_of_ne_nil fun he => h.1 (String.toList_eq_nil_iff.mp he)
  exact ⟨c, cs, hcs, h.2 c (hcs ▸ List.mem_cons_self)⟩

section BareKeyPart

variable {c : Char} (h : isBareKeyPart c = true)

include h

theorem ne_of_isBareKeyPart {d : Char} (hd : isBareKeyPart d = false) : c ≠ d := by
  rintro rfl
  rw [h] at hd
  cases hd

theorem skipSpace_bare (cs : List Char) : skipSpace (c :: cs) = c :: cs := by
  have hblank : c ≠ ' ' := ne_of_isBareKeyPart h (by decide)
  have htab : c ≠ '\t' := ne_of_isBareKeyPart h (by decide)
  exact List.dropWhile_cons_of_neg (by simp [isSpace, hblank, htab])

theorem readShortText_bare (cs : List Char) : readShortText (c :: cs) = none := by
  have hdouble : c ≠ '"' := ne_of_isBareKeyPart h (by decide)
  have hsingle : c ≠ '\'' := ne_of_isBareKeyPart h (by decide)
  rw [readShortText]
  · exact fun _ he => hdouble (List.cons.inj he).1
  · exact fun _ he => hsingle (List.cons.inj he).1

/-- A line with a key has not ended. -/
theorem endOfLine_bare (cs : List Char) : endOfLine (c :: cs) = none := by
  have hhash : c ≠ '#' := ne_of_isBareKeyPart h (by decide)
  have hn : c ≠ '\n' := ne_of_isBareKeyPart h (by decide)
  have hr : c ≠ '\r' := ne_of_isBareKeyPart h (by decide)
  have hcomment : skipComment (c :: cs) = c :: cs := by
    rw [skipComment]
    exact fun _ he => hhash (List.cons.inj he).1
  rw [endOfLine, skipSpace_bare h, hcomment]
  split
  next he => cases he
  next he => exact absurd (List.cons.inj he).1 hn
  next he => exact absurd (List.cons.inj he).1 hr
  next => rfl

end BareKeyPart

theorem readKey_bare {key : String} (h : IsBareKey key) (rest : List Char) :
    readKey (key.toList ++ ' ' :: '=' :: rest) = some ([key], '=' :: rest) := by
  obtain ⟨c, cs, hcs, hc⟩ := h.exists_cons
  have hname : (key.toList ++ ' ' :: '=' :: rest).takeWhile isBareKeyPart = key.toList :=
    Text.takeWhile_append_of_head h.2 (by intro c hc; cases hc; decide)
  have hpart : readKeyPart (key.toList ++ ' ' :: '=' :: rest) = some (key, ' ' :: '=' :: rest) := by
    have hshort : readShortText (key.toList ++ ' ' :: '=' :: rest) = none := by
      rw [hcs, List.cons_append, readShortText_bare hc]
    rw [readKeyPart, hshort]
    simp only [hname]
    rw [if_neg (by rw [hcs]; exact List.cons_ne_nil c cs), List.drop_left, String.ofList_toList]
  have hspace : skipSpace (key.toList ++ ' ' :: '=' :: rest) =
      key.toList ++ ' ' :: '=' :: rest := by
    rw [hcs, List.cons_append, skipSpace_bare hc]
  rw [readKey, hspace, hpart]
  rfl

/-! ## 3. Keys with texts -/

/-- A line that sets a key to a text. -/
def textLine (p : String × String) : String := p.1 ++ " = " ++ quote p.2 ++ "\n"

theorem exists_cons_quote (s : String) :
    ∃ c cs, (quote s).toList = c :: cs ∧ isSpace c = false := by
  rw [quote, String.toList_ofList]
  split
  · exact ⟨_, _, rfl, by decide⟩
  · exact ⟨_, _, rfl, by decide⟩
  · exact ⟨_, _, rfl, by decide⟩
  · exact ⟨_, _, rfl, by decide⟩

/-- The value of such a line is the text, with as much fuel as one likes. -/
theorem readValue_quote (fuel : Nat) (s : String) (rest : List Char) :
    readValue (fuel + 1) ((quote s).toList ++ '\n' :: rest) = some (text s, '\n' :: rest) := by
  have htext : readText ((quote s).toList ++ '\n' :: rest) = some (s.toList, '\n' :: rest) :=
    readText_quote s (by simp) (by simp)
  rw [readValue.eq_def]
  simp only [htext, String.ofList_toList]

/-- A new key of the table that is open from the start. -/
theorem setKey_new {ms : Members} {key : String} (h : ms.get? key = none) (v : Toml) :
    setKey [] key v .header ms = some (.header, ms ++ [(key, v)]) := by
  unfold setKey change
  rw [if_neg (by decide), if_neg (by simp [h])]

/-- A line with a new key adds this key with its text, and nothing else. -/
theorem readLine_textLine {ms : Members} {p : String × String} (hkey : IsBareKey p.1)
    (hnew : ms.get? p.1 = none) (rest : List Char) :
    readLine ⟨ms, []⟩ ((textLine p).toList ++ rest) =
      some (⟨ms ++ [(p.1, text p.2)], []⟩, rest) := by
  obtain ⟨key, s⟩ := p
  have hline : (textLine (key, s)).toList ++ rest =
      key.toList ++ ' ' :: '=' :: ' ' :: ((quote s).toList ++ '\n' :: rest) := by
    simp [textLine]
  obtain ⟨c, cs, hcs, hc⟩ := hkey.exists_cons
  have hbracket : c ≠ '[' := ne_of_isBareKeyPart hc (by decide)
  have hvalue : skipSpace (' ' :: ((quote s).toList ++ '\n' :: rest)) =
      (quote s).toList ++ '\n' :: rest := by
    obtain ⟨q, qs, hq, hqs⟩ := exists_cons_quote s
    rw [hq, skipSpace, List.dropWhile_cons_of_pos (by decide), List.cons_append,
      List.dropWhile_cons_of_neg (by simp [hqs])]
  have hread := readKey_bare hkey (' ' :: ((quote s).toList ++ '\n' :: rest))
  rw [hline]
  rw [hcs, List.cons_append] at hread ⊢
  -- A key begins neither a header nor a comment, so the line is read as a key with its value.
  rw [readLine, skipSpace_bare hc]
  split
  next he => exact absurd (List.cons.inj he).1 hbracket
  next he => exact absurd (List.cons.inj he).1 hbracket
  next =>
    simp only [endOfLine_bare hc, hread, Option.bind_eq_bind, Option.bind_some, hvalue,
      readValue_quote]
    rw [if_neg (by simp [nesting])]
    show (Draft.of [] (setKey [] key (text s) .header ms)).bind _ = _
    rw [setKey_new hnew]
    rfl

/-- The texts of keys, as the members of a table. -/
def texts (ps : List (String × String)) : Members := ps.map fun p => (p.1, text p.2)

theorem get?_texts_eq_none {ps : List (String × String)} {key : String}
    (h : key ∉ ps.map Prod.fst) : (texts ps).get? key = none := by
  rw [Members.get?, List.lookup_eq_none_iff]
  intro q hq
  obtain ⟨p, hp, rfl⟩ := List.mem_map.mp hq
  simp only [bne_iff_ne, ne_eq]
  rintro rfl
  exact h (List.mem_map_of_mem hp)

/-- Lines with different keys add these keys in order. -/
theorem readLines_textLines {done todo : List (String × String)}
    (hkeys : ∀ p ∈ todo, IsBareKey p.1) (hnodup : ((done ++ todo).map Prod.fst).Nodup)
    {fuel : Nat} (hfuel : todo.length ≤ fuel) :
    readLines fuel ⟨texts done, []⟩ (String.join (todo.map textLine)).toList =
      some ⟨texts (done ++ todo), []⟩ := by
  induction todo generalizing done fuel with
  | nil =>
    rw [List.append_nil]
    cases fuel <;> rfl
  | cons p todo ih =>
    obtain ⟨fuel, rfl⟩ : ∃ n, fuel = n + 1 := ⟨fuel - 1, by simp at hfuel; omega⟩
    -- A key that occurs once is not among those that were read.
    have hnew : (texts done).get? p.1 = none := by
      apply get?_texts_eq_none
      intro hp
      rw [List.map_append, List.nodup_append] at hnodup
      exact hnodup.2.2 _ hp _ (List.mem_map_of_mem List.mem_cons_self) rfl
    have hdone : texts done ++ [(p.1, text p.2)] = texts (done ++ [p]) := by
      simp [texts]
    have hline := readLine_textLine (hkeys p List.mem_cons_self) hnew
      (String.join (todo.map textLine)).toList
    rw [hdone] at hline
    have hrest : readLines fuel ⟨texts (done ++ [p]), []⟩ (String.join (todo.map textLine)).toList =
        some ⟨texts (done ++ [p] ++ todo), []⟩ :=
      ih (fun q hq => hkeys q (List.mem_cons_of_mem p hq)) (by simpa using hnodup)
        (by simpa using hfuel)
    obtain ⟨c, cs, hcs⟩ : ∃ c cs,
        (textLine p).toList ++ (String.join (todo.map textLine)).toList = c :: cs := by
      apply List.exists_cons_of_ne_nil
      simp [textLine]
    rw [List.map_cons, String.join_cons, String.toList_append, hcs, readLines, ← hcs, hline]
    · show readLines fuel _ _ = _
      rw [hrest, List.append_assoc, List.singleton_append]
    · exact List.cons_ne_nil c cs

end ScriptPlugins.Toml
