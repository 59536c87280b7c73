import ScriptPlugins.Language.Split
import ScriptPlugins.Outcome
import ScriptPlugins.Proofs.Text.Runs

/-!
# Pieces — how a text is cut, and which texts are cut alike

A piece is read from its own characters and from the one character behind it, which must not go on
with the piece.  So a run of pieces is what its spelling is cut into exactly if each piece ends
before the next one (`piecesFrom_eq_ok_iff`), and runs can be taken apart and put together wherever
that stays so.
-/

namespace ScriptPlugins.Language

open ScriptPlugins.Text (takeWhile_append_of_head head?_dropWhile_eq_false)

/-! ## 1. One piece -/

namespace Piece

/-- Whether a character right behind a piece would belong to it: words go on with the parts of
words, line comments with everything on their line. -/
def goesOn (p : Piece) (c : Char) : Bool :=
  match p.kind, p.text with
  | some (.word _), _ => isWordPart c
  | none, '/' :: '/' :: _ => c ≠ '\n'
  | _, _ => false

/-- Whether a piece ends before a text. -/
def EndsBefore (p : Piece) (rest : List Char) : Prop := ∀ c ∈ rest.head?, p.goesOn c = false

@[simp] theorem endsBefore_nil (p : Piece) : p.EndsBefore [] := by simp [EndsBefore]

@[simp] theorem endsBefore_cons (p : Piece) (c : Char) (cs : List Char) :
    p.EndsBefore (c :: cs) ↔ p.goesOn c = false := by simp [EndsBefore]

/-- A piece that is read off the front of a text, with what stands behind it. -/
def Reads (p : Piece) (rest : List Char) : Prop :=
  ∃ c cs, p.text = c :: cs ∧ pieceAt c (cs ++ rest) = .ok p

end Piece

/-- A comment ends where it says, whatever stands behind it. -/
theorem commentRest_eq_some {cs text : List Char} (h : commentRest cs = some text) :
    ∃ rest, cs = text ++ rest ∧ ∀ rest', commentRest (text ++ rest') = some text := by
  induction cs using commentRest.induct generalizing text with
  | case1 cs =>
    cases h
    exact ⟨cs, rfl, fun _ => rfl⟩
  | case2 c cs hne ih =>
    rw [commentRest] at h
    · obtain ⟨t, ht, rfl⟩ := Option.map_eq_some_iff.mp h
      obtain ⟨rest, rfl, hrest⟩ := ih ht
      refine ⟨rest, rfl, fun rest' => ?_⟩
      rw [List.cons_append, commentRest, hrest, Option.map_some]
      -- The end of the comment is not at `c`, so it is not there in the other text either.
      intro ds hc hds
      subst hc
      cases t with
      | nil => simpa [commentRest] using hrest []
      | cons d t =>
        cases hds
        exact hne (t ++ rest) rfl rfl
    · intro ds hc hds
      exact hne ds hc hds
  | case3 => cases h

theorem stringRest_cons {quote c : Char} (hc : c ≠ '\\') (cs : List Char) :
    stringRest quote (c :: cs) =
      if c = '\n' then .error .unterminatedString
      else if c = quote then .ok ([c], [])
      else (stringRest quote cs).map fun (text, value) => (c :: text, c :: value) := by
  rw [stringRest]
  · intro h; exact absurd h hc
  · intro e ds h; exact absurd h hc

/-- A character of a string that no escape begins with is no backslash. -/
theorem ne_backslash {c : Char} {cs : List Char} (h₁ : c = '\\' → cs = [] → False)
    (h₂ : ∀ e ds, c = '\\' → cs = e :: ds → False) : c ≠ '\\' := by
  intro hc
  cases cs with
  | nil => exact h₁ hc rfl
  | cons e ds => exact h₂ e ds hc rfl

/-- A string ends where it says, whatever stands behind it. -/
theorem stringRest_eq_ok {quote : Char} {cs text value : List Char}
    (h : stringRest quote cs = .ok (text, value)) :
    ∃ rest, cs = text ++ rest ∧ ∀ rest', stringRest quote (text ++ rest') = .ok (text, value) := by
  -- The cases: the end, a backslash at the end, an unknown escape, an escape, a line feed, the
  -- closing quote, and any other character.
  induction cs using stringRest.induct quote generalizing text value with
  | case1 => cases h
  | case2 => cases h
  | case3 e cs he =>
    rw [stringRest, he] at h
    cases h
  | case4 e cs v he ih =>
    rw [stringRest, he] at h
    cases hr : stringRest quote cs with
    | error fault => rw [hr] at h; cases h
    | ok r =>
      rw [hr] at h
      cases h
      obtain ⟨rest, rfl, hrest⟩ := ih hr
      refine ⟨rest, rfl, fun rest' => ?_⟩
      show stringRest quote ('\\' :: e :: (r.1 ++ rest')) = _
      rw [stringRest, he, hrest]
      rfl
  | case5 cs h₁ h₂ =>
    rw [stringRest_cons (by decide), if_pos rfl] at h
    cases h
  | case6 cs h₁ h₂ hn =>
    have hc := ne_backslash h₁ h₂
    rw [stringRest_cons hc, if_neg hn, if_pos rfl] at h
    cases h
    exact ⟨cs, rfl, fun rest' => by
      rw [List.singleton_append, stringRest_cons hc, if_neg hn, if_pos rfl]⟩
  | case7 c cs h₁ h₂ hn hq ih =>
    have hc := ne_backslash h₁ h₂
    rw [stringRest_cons hc, if_neg hn, if_neg hq] at h
    cases hr : stringRest quote cs with
    | error fault => rw [hr] at h; cases h
    | ok r =>
      rw [hr] at h
      cases h
      obtain ⟨rest, rfl, hrest⟩ := ih hr
      refine ⟨rest, rfl, fun rest' => ?_⟩
      rw [List.cons_append, stringRest_cons hc, if_neg hn, if_neg hq, hrest]
      rfl

/-- What a mark's kind is not. -/
theorem markKind_ne_word {c : Char} {kind : TokenKind} (h : markKind c = some kind)
    (name : String) : kind ≠ .word name := by
  intro hk
  subst hk
  unfold markKind at h
  split at h <;> cases h

/-- A piece that no character goes on with ends before every text. -/
theorem Piece.endsBefore_of_closed {p : Piece} (h : ∀ c, p.goesOn c = false) (rest : List Char) :
    p.EndsBefore rest := fun c _ => h c

/-- A slash begins a comment, of one line or closed further on. -/
theorem slashPiece_cases {cs : List Char} {p : Piece} (h : slashPiece cs = .ok p) :
    (∃ ds, cs = '/' :: ds ∧ p = ⟨'/' :: '/' :: ds.takeWhile (· ≠ '\n'), none⟩) ∨
      ∃ ds text, cs = '*' :: ds ∧ commentRest ds = some text ∧ p = ⟨'/' :: '*' :: text, none⟩ := by
  unfold slashPiece at h
  split at h
  next ds =>
    cases h
    exact .inl ⟨ds, rfl, rfl⟩
  next ds =>
    split at h
    next text htext =>
      cases h
      exact .inr ⟨ds, text, rfl, htext, rfl⟩
    next => cases h
  next => cases h

theorem slashPiece_eq_ok {cs : List Char} {p : Piece} (h : slashPiece cs = .ok p) :
    ∃ t rest, p.text = '/' :: t ∧ cs = t ++ rest ∧ p.EndsBefore rest ∧
      ∀ rest', p.EndsBefore rest' → slashPiece (t ++ rest') = .ok p := by
  rcases slashPiece_cases h with ⟨ds, rfl, rfl⟩ | ⟨ds, text, rfl, htext, rfl⟩
  · refine ⟨'/' :: ds.takeWhile (· ≠ '\n'), ds.dropWhile (· ≠ '\n'), rfl, ?_, ?_, ?_⟩
    · rw [List.cons_append, List.takeWhile_append_dropWhile]
    · exact head?_dropWhile_eq_false (· ≠ '\n') ds
    · intro rest' hrest
      have ht : (ds.takeWhile (· ≠ '\n') ++ rest').takeWhile (· ≠ '\n') =
          ds.takeWhile (· ≠ '\n') :=
        takeWhile_append_of_head (q := (· ≠ '\n'))
          (fun c hc => List.mem_takeWhile_imp (p := (· ≠ '\n')) hc) hrest
      simp only [slashPiece, List.cons_append, ht]
  · obtain ⟨rest, rfl, hrest⟩ := commentRest_eq_some htext
    refine ⟨'*' :: text, rest, rfl, rfl, Piece.endsBefore_of_closed (fun _ => rfl) rest, ?_⟩
    intro rest' _
    simp only [slashPiece, List.cons_append, hrest]

/-- What a character may begin, and how a piece is read where it stands. -/
inductive Initial (c : Char) : Prop
  | blank (hb : isBlank c = true) (hread : ∀ cs, pieceAt c cs = .ok ⟨[c], none⟩)
  | mark (kind : TokenKind) (hk : markKind c = some kind)
      (hread : ∀ cs, pieceAt c cs = .ok ⟨[c], some kind⟩)
  | slash (hs : c = '/') (hread : ∀ cs, pieceAt c cs = slashPiece cs)
  | quote (hq : c ∈ ['\'', '"']) (hread : ∀ cs, pieceAt c cs =
      (stringRest c cs).map fun (text, value) => ⟨c :: text, some (.text (String.ofList value))⟩)
  | word (hread : ∀ cs, pieceAt c cs = .ok ⟨c :: cs.takeWhile isWordPart,
      some (.word (String.ofList (c :: cs.takeWhile isWordPart)))⟩)
  | stray (hb : isBlank c = false) (hk : markKind c = none) (hc : c ∉ ['/', '\'', '"'])
      (hw : isWordStart c = false) (hread : ∀ cs, pieceAt c cs = .error (.unexpected c))

/-- **The first character tells what is read.** -/
theorem initial (c : Char) : Initial c := by
  by_cases hb : isBlank c = true
  · exact .blank hb fun cs => if_pos hb
  cases hk : markKind c with
  | some kind => exact .mark kind hk fun cs => by simp only [pieceAt, if_neg hb, hk]
  | none =>
    by_cases hs : c = '/'
    · exact .slash hs fun cs => by simp only [pieceAt, if_neg hb, hk, if_pos hs]
    by_cases hq : c = '\'' ∨ c = '"'
    · exact .quote (by simpa using hq) fun cs => by
        simp only [pieceAt, if_neg hb, hk, if_neg hs, if_pos hq]
    by_cases hw : isWordStart c = true
    · exact .word fun cs => by simp only [pieceAt, if_neg hb, hk, if_neg hs, if_neg hq, if_pos hw]
    · exact .stray (Bool.eq_false_iff.mpr hb) hk (by simp_all)
          (Bool.eq_false_iff.mpr hw) fun cs => by
        simp only [pieceAt, if_neg hb, hk, if_neg hs, if_neg hq, if_neg hw]

/-- A piece of a text is its first character and some that follow; it ends before what is left, and
it is read again before every text that it ends before. -/
theorem pieceAt_eq_ok {c : Char} {cs : List Char} {p : Piece} (h : pieceAt c cs = .ok p) :
    ∃ t rest, p.text = c :: t ∧ cs = t ++ rest ∧ p.EndsBefore rest ∧
      ∀ rest', p.EndsBefore rest' → pieceAt c (t ++ rest') = .ok p := by
  -- Only a word and a comment of one line could go on with what stands behind them.
  cases initial c with
  | blank hb hread =>
    cases (hread cs).symm.trans h
    exact ⟨[], cs, rfl, rfl, Piece.endsBefore_of_closed (fun d => by simp [Piece.goesOn]) cs,
      fun rest' _ => hread rest'⟩
  | mark kind hk hread =>
    cases (hread cs).symm.trans h
    refine ⟨[], cs, rfl, rfl, Piece.endsBefore_of_closed (fun d => ?_) cs,
      fun rest' _ => hread rest'⟩
    cases kind with
    | word name => exact absurd rfl (markKind_ne_word hk name)
    | _ => rfl
  | slash hs hread =>
    rw [hread] at h
    obtain ⟨t, rest, ht, hcs, hends, hr⟩ := slashPiece_eq_ok h
    exact ⟨t, rest, hs ▸ ht, hcs, hends, fun rest' hrest => (hread _).trans (hr rest' hrest)⟩
  | quote hq hread =>
    rw [hread] at h
    obtain ⟨r, hr, rfl⟩ := map_eq_ok h
    obtain ⟨rest, rfl, hrest⟩ := stringRest_eq_ok hr
    refine ⟨r.1, rest, rfl, rfl, Piece.endsBefore_of_closed (fun _ => rfl) rest, fun rest' _ => ?_⟩
    rw [hread, hrest]
    rfl
  | word hread =>
    cases (hread cs).symm.trans h
    refine ⟨cs.takeWhile isWordPart, cs.dropWhile isWordPart, rfl,
      List.takeWhile_append_dropWhile.symm, head?_dropWhile_eq_false isWordPart cs,
        fun rest' hrest => ?_⟩
    have htext : (cs.takeWhile isWordPart ++ rest').takeWhile isWordPart =
        cs.takeWhile isWordPart :=
      takeWhile_append_of_head (fun c hc => List.mem_takeWhile_imp hc) hrest
    rw [hread, htext]
  | stray hb hk hc hw hread =>
    rw [hread] at h
    cases h

namespace Piece

/-- A piece is read before exactly those texts that it ends before. -/
theorem reads_iff {p : Piece} {rest : List Char} : p.Reads rest ↔
    p.Reads [] ∧ p.EndsBefore rest := by
  constructor
  · rintro ⟨c, cs, hp, h⟩
    obtain ⟨t, rest₂, ht, hcs, he, hr⟩ := pieceAt_eq_ok h
    obtain rfl : cs = t := (List.cons.inj (hp.symm.trans ht)).2
    obtain rfl : rest = rest₂ := List.append_cancel_left hcs
    exact ⟨⟨c, cs, hp, hr [] (endsBefore_nil p)⟩, he⟩
  · rintro ⟨⟨c, cs, hp, h⟩, he⟩
    obtain ⟨t, rest₂, ht, hcs, -, hr⟩ := pieceAt_eq_ok h
    obtain rfl : cs = t := (List.cons.inj (hp.symm.trans ht)).2
    exact ⟨c, cs, hp, hr rest he⟩

end Piece

/-! ## 2. Runs of pieces -/

/-- A run of pieces each of which is read where it stands. -/
inductive Cut : List Piece → Prop
  | nil : Cut []
  | cons {p : Piece} {ps : List Piece} : p.Reads (Piece.spell ps) → Cut ps → Cut (p :: ps)

/-- What is left of a text behind its first piece. -/
theorem exists_reads {c : Char} {cs : List Char} {p : Piece} (h : pieceAt c cs = .ok p) :
    ∃ rest, c :: cs = p.text ++ rest ∧ p.Reads rest ∧ cs.drop (p.text.length - 1) = rest := by
  obtain ⟨t, rest, ht, rfl, -, -⟩ := pieceAt_eq_ok h
  refine ⟨rest, by rw [ht, List.cons_append], ⟨c, t, ht, h⟩, ?_⟩
  rw [ht, List.length_cons, Nat.add_sub_cancel, List.drop_left]

/-- One piece is taken off a text that begins with it. -/
theorem piecesFrom_append {p : Piece} {rest : List Char} (h : p.Reads rest) (line : Nat) :
    piecesFrom line (p.text ++ rest) =
      (piecesFrom (line + lineFeeds p.text) rest).map (p :: ·) := by
  obtain ⟨c, t, ht, hr⟩ := h
  have hd : (t ++ rest).drop (p.text.length - 1) = rest := by
    rw [ht, List.length_cons, Nat.add_sub_cancel, List.drop_left]
  rw [ht, List.cons_append, piecesFrom, hr, ← ht]
  simp only [hd]

theorem piecesFrom_of_cut {ps : List Piece} (h : Cut ps) (line : Nat) :
    piecesFrom line (Piece.spell ps) = .ok ps := by
  induction h generalizing line with
  | nil => rw [Piece.spell_nil, piecesFrom]
  | cons hp _ ih =>
    rw [Piece.spell_cons, piecesFrom_append hp, ih]
    rfl

theorem cut_of_piecesFrom {line : Nat} {cs : List Char} {ps : List Piece}
    (h : piecesFrom line cs = .ok ps) : Piece.spell ps = cs ∧ Cut ps := by
  induction line, cs using piecesFrom.induct generalizing ps with
  | case1 line =>
    rw [piecesFrom] at h
    cases h
    exact ⟨rfl, .nil⟩
  | case2 line c cs fault hf =>
    rw [piecesFrom, hf] at h
    cases h
  | case3 line c cs p hp ih =>
    obtain ⟨rest, hcs, hread, hd⟩ := exists_reads hp
    rw [hcs, piecesFrom_append hread] at h
    obtain ⟨qs, hqs, rfl⟩ := map_eq_ok h
    rw [hd] at ih
    obtain ⟨rfl, hc⟩ := ih hqs
    exact ⟨by rw [Piece.spell_cons, hcs], .cons hread hc⟩

/-- A text is cut into the pieces that spell it and are each read where they stand. -/
theorem piecesFrom_eq_ok_iff {line : Nat} {cs : List Char} {ps : List Piece} :
    piecesFrom line cs = .ok ps ↔ Piece.spell ps = cs ∧ Cut ps :=
  ⟨cut_of_piecesFrom, fun ⟨hs, hc⟩ => hs ▸ piecesFrom_of_cut hc line⟩

/-- The pieces of a script, if it has any, are a run that is read where it stands. -/
theorem pieces_eq_ok_iff {source : String} {ps : List Piece} :
    pieces source = .ok ps ↔ Piece.spell ps = source.toList ∧ Cut ps := piecesFrom_eq_ok_iff

namespace Cut

theorem reads {p : Piece} {ps : List Piece} (h : Cut (p :: ps)) : p.Reads (Piece.spell ps) := by
  cases h with
  | cons hp _ => exact hp

theorem tail {p : Piece} {ps : List Piece} (h : Cut (p :: ps)) : Cut ps := by
  cases h with
  | cons _ hps => exact hps

theorem of_append_right {ps qs : List Piece} (h : Cut (ps ++ qs)) : Cut qs := by
  induction ps with
  | nil => exact h
  | cons p ps ih => exact ih h.tail

/-- The text of a run begins with that of its first piece, so a piece that ends before a run ends
before every beginning of it. -/
theorem endsBefore_of_append {p : Piece} {ps qs : List Piece} (hps : Cut ps)
    (h : p.EndsBefore (Piece.spell (ps ++ qs))) : p.EndsBefore (Piece.spell ps) := by
  cases hps with
  | nil => exact Piece.endsBefore_nil p
  | @cons q ps hq _ =>
    obtain ⟨c, cs, ht, -⟩ := hq
    rw [List.cons_append, Piece.spell_cons, ht] at h
    rw [Piece.spell_cons, ht]
    exact h

theorem of_append_left {ps qs : List Piece} (h : Cut (ps ++ qs)) : Cut ps := by
  induction ps with
  | nil => exact .nil
  | cons p ps ih =>
    have hps := ih h.tail
    have hp := Piece.reads_iff.mp h.reads
    exact .cons (Piece.reads_iff.mpr ⟨hp.1, endsBefore_of_append hps hp.2⟩) hps

/-- Two runs make one if the last piece of the first one ends before the second one. -/
theorem append {ps qs : List Piece} (hps : Cut ps) (hqs : Cut qs)
    (h : ∀ p ∈ ps.getLast?, p.EndsBefore (Piece.spell qs)) : Cut (ps ++ qs) := by
  induction hps with
  | nil => exact hqs
  | @cons p ps hp hps ih =>
    cases ps with
    | nil =>
      have hp' := Piece.reads_iff.mp hp
      exact .cons (Piece.reads_iff.mpr ⟨hp'.1, h p rfl⟩) hqs
    | cons q qs' =>
      obtain ⟨c, cs, ht, -⟩ := hps.reads
      have hp' := Piece.reads_iff.mp hp
      refine .cons (Piece.reads_iff.mpr ⟨hp'.1, ?_⟩) (ih fun r hr => h r (by
        rw [List.getLast?_cons_cons]; exact hr))
      -- The next piece is still the first one, and it begins with the same character.
      have he := hp'.2
      rw [Piece.spell_cons, ht] at he
      show p.EndsBefore (Piece.spell (q :: (qs' ++ qs)))
      rw [Piece.spell_cons, ht]
      exact he

/-- The last piece of a run ends before the run that follows it. -/
theorem endsBefore_of_mem_getLast? {ps qs : List Piece} (h : Cut (ps ++ qs)) :
    ∀ p ∈ ps.getLast?, p.EndsBefore (Piece.spell qs) := by
  intro p hp
  obtain ⟨init, rfl⟩ : ∃ init, ps = init ++ [p] := List.getLast?_eq_some_iff.mp hp
  rw [List.append_assoc] at h
  exact (Piece.reads_iff.mp h.of_append_right.reads).2

end Cut

/-! ## 3. Fillers and blanks -/

/-- A filler that something other than a line feed does not go on with is closed: only a line
comment is open, and only to its own line. -/
theorem Piece.closed_of_isFiller {p : Piece} {c : Char} (hp : p.isFiller) (hc : c ≠ '\n')
    (h : p.goesOn c = false) (d : Char) : p.goesOn d = false := by
  unfold Piece.goesOn at h ⊢
  split at h
  next name hk =>
    rw [Piece.isFiller, hk] at hp
    cases hp
  next hk ht => simp [hc] at h
  next => rfl

/-- What is left of a character when it is blanked out, as a piece. -/
def blankPiece (c : Char) : Piece := if c = '\n' then ⟨['\n'], some .lineFeed⟩ else ⟨[' '], none⟩

/-- What is left of a text when it is blanked out, as pieces. -/
def blankPieces (cs : List Char) : List Piece := cs.map blankPiece

@[simp] theorem spell_blankPieces (cs : List Char) :
    Piece.spell (blankPieces cs) = blankOut cs := by
  induction cs with
  | nil => rfl
  | cons c cs ih =>
    show (blankPiece c).text ++ Piece.spell (blankPieces cs) =
      (if c = '\n' then '\n' else ' ') :: blankOut cs
    rw [ih, blankPiece]
    split <;> rfl

theorem cut_blankPieces (cs : List Char) : Cut (blankPieces cs) := by
  induction cs with
  | nil => exact .nil
  | cons c cs ih =>
    refine .cons ?_ ih
    rw [blankPiece]
    split
    · exact ⟨'\n', [], rfl, by simp [pieceAt, isBlank, markKind]⟩
    · exact ⟨' ', [], rfl, by simp [pieceAt, isBlank]⟩

theorem closed_of_mem_blankPieces {cs : List Char} {p : Piece} (h : p ∈ blankPieces cs) (d : Char) :
    p.goesOn d = false := by
  obtain ⟨c, -, rfl⟩ := List.mem_map.mp h
  rw [blankPiece]
  split <;> simp [Piece.goesOn]

@[simp] theorem lineFeeds_append (cs ds : List Char) :
    lineFeeds (cs ++ ds) = lineFeeds cs + lineFeeds ds := List.count_append

@[simp] theorem lineFeeds_blankOut (cs : List Char) : lineFeeds (blankOut cs) = lineFeeds cs := by
  induction cs with
  | nil => rfl
  | cons c cs ih =>
    simp only [lineFeeds, blankOut, List.map_cons, List.count_cons] at ih ⊢
    rw [ih]
    split <;> simp_all

/-! ## 4. The tokens of a run -/

namespace Token

/-- What a reader of tokens sees: the kind of a token and its line. -/
def placed (t : Token) : TokenKind × Nat := (t.kind, t.line)

end Token

namespace Piece

/-- The kinds of the tokens of a run, in order. -/
def kinds (ps : List Piece) : List TokenKind := ps.filterMap Piece.kind

@[simp] theorem kinds_nil : kinds [] = [] := rfl

@[simp] theorem kinds_append (ps qs : List Piece) : kinds (ps ++ qs) = kinds ps ++ kinds qs :=
  List.filterMap_append

theorem after_after (at_ : Place) (cs ds : List Char) :
    (at_.after cs).after ds = at_.after (cs ++ ds) := by
  simp [Place.after, Nat.add_assoc, Text.byteSize_append]

theorem tokens_append (at_ : Place) (ps qs : List Piece) :
    tokens at_ (ps ++ qs) = tokens at_ ps ++ tokens (at_.after (spell ps)) qs := by
  induction ps generalizing at_ with
  | nil => simp [tokens, Place.after, lineFeeds, Text.byteSize]
  | cons p ps ih =>
    rw [List.cons_append, tokens, tokens, spell_cons, ← after_after]
    cases hk : p.kind with
    | none => exact ih _
    | some kind => simp only [ih, List.cons_append]

@[simp] theorem map_kind_tokens (at_ : Place) (ps : List Piece) :
    (tokens at_ ps).map Token.kind = kinds ps := by
  induction ps generalizing at_ with
  | nil => rfl
  | cons p ps ih =>
    rw [tokens, kinds, List.filterMap_cons]
    cases hk : p.kind with
    | none => exact ih _
    | some kind => simp only [List.map_cons, ih, kinds]

/-- Kinds and lines of tokens depend on the line where a run begins and on nothing else around
it. -/
theorem map_placed_tokens {at₁ at₂ : Place} (h : at₁.line = at₂.line) (ps : List Piece) :
    (tokens at₁ ps).map Token.placed = (tokens at₂ ps).map Token.placed := by
  induction ps generalizing at₁ at₂ with
  | nil => rfl
  | cons p ps ih =>
    have hp : (at₁.after p.text).line = (at₂.after p.text).line := by simp [Place.after, h]
    rw [tokens, tokens]
    cases hk : p.kind with
    | none => exact ih hp
    | some kind => simp only [List.map_cons, Token.placed, h, ih hp]

end Piece

theorem kinds_blankPieces (cs : List Char) :
    Piece.kinds (blankPieces cs) = List.replicate (lineFeeds cs) .lineFeed := by
  induction cs with
  | nil => rfl
  | cons c cs ih =>
    rw [blankPieces, List.map_cons, Piece.kinds, List.filterMap_cons, ← blankPieces, ← Piece.kinds,
      ih, blankPiece]
    by_cases hc : c = '\n'
    · simp [hc, List.replicate_succ, lineFeeds]
    · simp [hc, lineFeeds]

end ScriptPlugins.Language
