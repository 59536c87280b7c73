import ScriptPlugins.Proofs.Language.Faults
import ScriptPlugins.Proofs.Language.Split

/-!
# Positions — where tokens stand, what stands between them, and cutting a script at a token

Spans count bytes, but they are the ends of texts that a script is made of.  So a script may be cut
at any token: what stands before it has the tokens before it, and what begins there has the others,
moved to its front.  Where a script is refused, what stands before the fault has tokens and no
longer beginning has any.
-/

namespace ScriptPlugins.Language

open ScriptPlugins.Text (byteSize byteSize_toList utf8ByteSize_ofList)

/-! ## 1. Tokens that are moved -/

@[simp] theorem Place.line_first_after (cs : List Char) :
    (Place.first.after cs).line = 1 + lineFeeds cs := rfl

@[simp] theorem Place.offset_first_after (cs : List Char) :
    (Place.first.after cs).offset = byteSize cs := Nat.zero_add _

/-- A token with some lines and bytes more in front of it. -/
def Token.moved (lines bytes : Nat) (t : Token) : Token :=
  ⟨t.kind, t.line + lines, t.start + bytes, t.stop + bytes⟩

namespace Piece

variable {p : Piece} {ps : List Piece} {at_ : Place} {t : Token} {front back : List Token}

theorem tokens_moved (at_ : Place) (lines bytes : Nat) (ps : List Piece) :
    tokens ⟨at_.line + lines, at_.offset + bytes⟩ ps =
      (tokens at_ ps).map (Token.moved lines bytes) := by
  induction ps generalizing at_ with
  | nil => rfl
  | cons p ps ih =>
    have hafter : (⟨at_.line + lines, at_.offset + bytes⟩ : Place).after p.text =
        ⟨(at_.after p.text).line + lines, (at_.after p.text).offset + bytes⟩ := by
      simp only [Place.after, Place.mk.injEq]
      omega
    rw [tokens, tokens, hafter, ih]
    cases p.kind <;> rfl

/-- The tokens behind a text are those of a script that begins there, moved. -/
theorem tokens_after_first (cs : List Char) (ps : List Piece) :
    tokens (Place.first.after cs) ps =
      (tokens .first ps).map (Token.moved (lineFeeds cs) (byteSize cs)) :=
  tokens_moved .first (lineFeeds cs) (byteSize cs) ps

theorem tokens_singleton (at_ : Place) (p : Piece) :
    tokens at_ [p] = p.kind.toList.map fun kind =>
      ⟨kind, at_.line, at_.offset, (at_.after p.text).offset⟩ := by
  rw [tokens]
  cases p.kind <;> rfl

theorem of_tokens_singleton (h : tokens at_ [p] = [t]) :
    p.kind = some t.kind ∧ t.line = at_.line ∧ t.start = at_.offset ∧
      t.stop = (at_.after p.text).offset := by
  rw [tokens_singleton] at h
  cases hk : p.kind with
  | none =>
    rw [hk] at h
    cases h
  | some kind =>
    rw [hk] at h
    cases h
    exact ⟨rfl, rfl, rfl, rfl⟩

theorem tokens_cons (at_ : Place) (p : Piece) (ps : List Piece) :
    tokens at_ (p :: ps) = tokens at_ [p] ++ tokens (at_.after p.text) ps := by
  rw [tokens, tokens_singleton]
  cases p.kind <;> rfl

/-- One token of a run is one piece of it. -/
theorem exists_of_tokens (h : tokens at_ ps = front ++ t :: back) :
    ∃ ps₁ p ps₂, ps = ps₁ ++ p :: ps₂ ∧ front = tokens at_ ps₁ ∧
      tokens (at_.after (spell ps₁)) [p] = [t] ∧
      back = tokens (at_.after (spell (ps₁ ++ [p]))) ps₂ := by
  induction ps generalizing at_ front with
  | nil => cases front <;> cases h
  | cons p ps ih =>
    rw [tokens_cons] at h
    -- The token is that of the first piece, or it is one of the others.
    have hcases : (front = [] ∧ tokens at_ [p] = [t] ∧ tokens (at_.after p.text) ps = back) ∨
        ∃ front', front = tokens at_ [p] ++ front' ∧
          tokens (at_.after p.text) ps = front' ++ t :: back := by
      rw [tokens_singleton] at h ⊢
      cases hk : p.kind with
      | none =>
        rw [hk] at h
        exact .inr ⟨front, rfl, h⟩
      | some kind =>
        rw [hk] at h
        cases front with
        | nil =>
          obtain ⟨rfl, hback⟩ := List.cons.inj h
          exact .inl ⟨rfl, rfl, hback⟩
        | cons u us =>
          obtain ⟨rfl, hus⟩ := List.cons.inj h
          exact .inr ⟨us, rfl, hus⟩
    rcases hcases with ⟨rfl, ht, rfl⟩ | ⟨front', rfl, h'⟩
    · exact ⟨[], p, ps, rfl, rfl, by simpa [Place.after, lineFeeds] using ht, by simp⟩
    · obtain ⟨ps₁, q, ps₂, rfl, rfl, ht, rfl⟩ := ih h'
      refine ⟨p :: ps₁, q, ps₂, rfl, (tokens_cons at_ p ps₁).symm, ?_, ?_⟩
      · rwa [spell_cons, ← after_after]
      · rw [List.cons_append, spell_cons, ← after_after]

/-- Tokens are not empty, and each ends before the next one begins. -/
theorem tokens_ordered (h : Cut ps) (at_ : Place) :
    (tokens at_ ps).Pairwise (fun t u => t.stop ≤ u.start) ∧
      ∀ t ∈ tokens at_ ps, at_.offset ≤ t.start ∧ t.start < t.stop := by
  induction h generalizing at_ with
  | nil => exact ⟨.nil, nofun⟩
  | @cons p ps hp _ ih =>
    obtain ⟨hordered, hbounds⟩ := ih (at_.after p.text)
    have hsize : at_.offset < (at_.after p.text).offset := by
      obtain ⟨c, cs, ht, -⟩ := hp
      have hc := c.utf8Size_pos
      simp only [Place.after, ht, Text.byteSize_cons]
      omega
    rw [tokens_cons, tokens_singleton]
    cases p.kind with
    | none =>
      exact ⟨hordered, fun t ht => ⟨(hsize.trans_le (hbounds t ht).1).le, (hbounds t ht).2⟩⟩
    | some kind =>
      refine ⟨.cons (fun u hu => (hbounds u hu).1) hordered, fun t ht => ?_⟩
      rcases List.mem_cons.mp ht with rfl | ht
      · exact ⟨Nat.le_refl _, hsize⟩
      · exact ⟨(hsize.trans_le (hbounds t ht).1).le, (hbounds t ht).2⟩

end Piece

/-! ## 2. What stands between tokens -/

/-- Blanks and complete comments, in front of what stands behind them. -/
inductive Gap : List Char → List Char → Prop
  | nil (behind : List Char) : Gap [] behind
  | blank {c : Char} {cs behind : List Char} : c ∈ [' ', '\t', '\r'] → Gap cs behind →
    Gap (c :: cs) behind
  | lineComment {inner cs behind : List Char} : '\n' ∉ inner →
    (∀ c ∈ (cs ++ behind).head?, c = '\n') → Gap cs behind →
    Gap ('/' :: '/' :: (inner ++ cs)) behind
  | blockComment {inner cs behind : List Char} : ¬['*', '/'] <:+: inner ++ ['*'] → Gap cs behind →
    Gap ('/' :: '*' :: (inner ++ '*' :: '/' :: cs)) behind

/-- A block comment ends at the first end of a comment in it. -/
theorem exists_of_commentRest {cs text : List Char} (h : commentRest cs = some text) :
    ∃ inner, text = inner ++ ['*', '/'] ∧ ¬['*', '/'] <:+: inner ++ ['*'] := by
  induction cs using commentRest.induct generalizing text with
  | case1 cs =>
    cases h
    exact ⟨[], rfl, by decide⟩
  | case2 c cs hne ih =>
    rw [commentRest] at h
    · obtain ⟨t, ht, rfl⟩ := Option.map_eq_some_iff.mp h
      obtain ⟨inner, rfl, hinner⟩ := ih ht
      obtain ⟨rest, rfl, -⟩ := commentRest_eq_some ht
      refine ⟨c :: inner, rfl, ?_⟩
      rw [List.cons_append, List.infix_cons_iff]
      rintro (⟨tail, htail⟩ | hi)
      · -- What begins here would be the end of the comment.
        obtain ⟨rfl, hslash⟩ := List.cons.inj htail
        cases inner with
        | nil => cases hslash
        | cons d ds =>
          obtain ⟨rfl, -⟩ := List.cons.inj hslash
          exact hne _ rfl rfl
      · exact hinner hi
    · intro ds hc hds
      exact hne ds hc hds
  | case3 => cases h

/-- A piece that is no token is a blank or a comment. -/
theorem Gap.of_piece {p : Piece} {cs behind : List Char} (hp : p.Reads (cs ++ behind))
    (hk : p.kind = none) (h : Gap cs behind) : Gap (p.text ++ cs) behind := by
  have he := (Piece.reads_iff.mp hp).2
  obtain ⟨c, t, -, hr⟩ := hp
  -- Of all characters only a blank and a slash can begin a piece that is no token.
  cases initial c with
  | blank hb hread =>
    cases (hread _).symm.trans hr
    exact .blank (by simpa [isBlank, or_assoc] using hb) h
  | mark kind _ hread =>
    cases (hread _).symm.trans hr
    cases hk
  | slash _ hread =>
    rw [hread] at hr
    rcases slashPiece_cases hr with ⟨ds, -, rfl⟩ | ⟨ds, text, -, htext, rfl⟩
    · refine .lineComment (fun hn => ?_) (fun c hc => ?_) h
      · simpa using List.mem_takeWhile_imp hn
      · simpa [Piece.goesOn] using he c hc
    · obtain ⟨inner, rfl, hinner⟩ := exists_of_commentRest htext
      have hcs : inner ++ ['*', '/'] ++ cs = inner ++ '*' :: '/' :: cs := by simp
      show Gap ('/' :: '*' :: (inner ++ ['*', '/'] ++ cs)) behind
      rw [hcs]
      exact .blockComment hinner h
  | quote _ hread =>
    rw [hread] at hr
    obtain ⟨x, -, rfl⟩ := map_eq_ok hr
    cases hk
  | word hread =>
    cases (hread _).symm.trans hr
    cases hk
  | stray _ _ _ _ hread =>
    rw [hread] at hr
    cases hr

/-- Pieces that are no tokens spell a gap. -/
theorem gap_of_cut {blanks ps : List Piece} (h : Cut (blanks ++ ps))
    (hb : ∀ p ∈ blanks, p.kind = none) : Gap (Piece.spell blanks) (Piece.spell ps) := by
  induction blanks with
  | nil => exact .nil _
  | cons p blanks ih =>
    rw [List.cons_append] at h
    have hgap := ih h.tail fun q hq => hb q (List.mem_cons_of_mem p hq)
    have hp := h.reads
    rw [Piece.spell_append] at hp
    exact hgap.of_piece hp (hb p List.mem_cons_self)

/-- Where the last of some tokens at the front of a text ends. -/
def stopOf (front : List Token) : Nat := (front.getLast?.map Token.stop).getD 0

/-- Where the first of some tokens at the back of a text of the given size begins. -/
def startOf (size : Nat) (back : List Token) : Nat := (back.head?.map Token.start).getD size

namespace Piece

variable {ps : List Piece} {at_ : Place} {front back : List Token}

/-- The pieces in front of the first token of a run. -/
theorem exists_blanks (ps : List Piece) (at_ : Place) :
    ∃ blanks rest, ps = blanks ++ rest ∧ (∀ p ∈ blanks, p.kind = none) ∧
      startOf (at_.after (spell ps)).offset (tokens at_ ps) =
        (at_.after (spell blanks)).offset := by
  induction ps generalizing at_ with
  | nil => exact ⟨[], [], rfl, nofun, rfl⟩
  | cons p ps ih =>
    cases hk : p.kind with
    | none =>
      obtain ⟨blanks, rest, rfl, hb, hstart⟩ := ih (at_.after p.text)
      refine ⟨p :: blanks, rest, rfl, ?_, ?_⟩
      · intro q hq
        rcases List.mem_cons.mp hq with rfl | hq
        · exact hk
        · exact hb q hq
      · rw [spell_cons, spell_cons, ← after_after, ← after_after, ← hstart, tokens, hk]
    | some kind =>
      refine ⟨[], p :: ps, rfl, nofun, ?_⟩
      rw [tokens, hk]
      rfl

/-- The pieces up to the last of some tokens. -/
theorem exists_front (h : tokens .first ps = front ++ back) :
    ∃ ps₁ ps₂, ps = ps₁ ++ ps₂ ∧ back = tokens (Place.first.after (spell ps₁)) ps₂ ∧
      stopOf front = byteSize (spell ps₁) := by
  -- Either there is no token at the front, or the last one is a piece.
  rcases List.eq_nil_or_concat front with rfl | ⟨front, t, rfl⟩
  · exact ⟨[], ps, rfl, h.symm, rfl⟩
  · rw [List.concat_eq_append, List.append_assoc, List.singleton_append] at h
    obtain ⟨ps₁, p, ps₂, rfl, -, ht, rfl⟩ := exists_of_tokens h
    refine ⟨ps₁ ++ [p], ps₂, by simp, rfl, ?_⟩
    obtain ⟨-, -, -, hstop⟩ := of_tokens_singleton ht
    simp [stopOf, hstop, after_after]

end Piece

/-! ## 3. Positions -/

theorem eq_of_toList {source : String} {before text behind : List Char}
    (h : before ++ text ++ behind = source.toList) :
    source = String.ofList before ++ String.ofList text ++ String.ofList behind := by
  rw [← String.ofList_append, ← String.ofList_append, h, String.ofList_toList]

/-- A token is a text of a script: its span are the ends of the text, and its line is one more than
the line feeds before it. -/
structure StandsAt (source : String) (t : Token) (before text behind : String) : Prop where
  parts : source = before ++ text ++ behind
  start : t.start = before.utf8ByteSize
  stop : t.stop = (before ++ text).utf8ByteSize
  line : t.line = 1 + lineFeeds before.toList

/-- What it means that the tokens of a script are where they say. -/
structure WellPlaced (source : String) (ts : List Token) : Prop where
  nonempty : ∀ t ∈ ts, t.start < t.stop
  ordered : ts.Pairwise fun t u => t.stop ≤ u.start
  /-- A token is a text of the script that is one token alone, and the script may be cut there. -/
  stands : ∀ {front t back}, ts = front ++ t :: back → ∃ before text behind,
    StandsAt source t before text behind ∧
    tokenize text = .ok [⟨t.kind, 1, 0, text.utf8ByteSize⟩] ∧
    tokenize before = .ok front ∧
    ∃ us, tokenize (text ++ behind) = .ok us ∧
      t :: back = us.map (Token.moved (lineFeeds before.toList) before.utf8ByteSize)
  /-- Before, between and behind tokens there are only blanks and complete comments. -/
  gaps : ∀ {front back}, ts = front ++ back → ∃ before gap behind,
    source = before ++ gap ++ behind ∧ before.utf8ByteSize = stopOf front ∧
    (before ++ gap).utf8ByteSize = startOf source.utf8ByteSize back ∧
    Gap gap.toList behind.toList

/-- A token of a run of pieces is one piece, and the pieces before it and from it on are cut alike
where they stand alone. -/
theorem Piece.stands_of_tokens {source : String} {ps : List Piece} {front back : List Token}
    {t : Token} (hc : Cut ps) (hs : spell ps = source.toList)
    (h : tokens .first ps = front ++ t :: back) : ∃ before text behind,
    StandsAt source t before text behind ∧
    tokenize text = .ok [⟨t.kind, 1, 0, text.utf8ByteSize⟩] ∧
    tokenize before = .ok front ∧
    ∃ us, tokenize (text ++ behind) = .ok us ∧
      t :: back = us.map (Token.moved (lineFeeds before.toList) before.utf8ByteSize) := by
  obtain ⟨ps₁, p, ps₂, rfl, rfl, ht, rfl⟩ := exists_of_tokens h
  have hsource : spell ps₁ ++ p.text ++ spell ps₂ = source.toList := by
    rw [← hs, spell_append, spell_cons, List.append_assoc]
  obtain ⟨hk, hline, hstart, hstop⟩ := of_tokens_singleton ht
  have hp : Cut (p :: ps₂) := hc.of_append_right
  -- A piece that stands alone ends before nothing, so it is cut as it was.
  have hone : Cut [p] := .cons (reads_iff.mpr ⟨(reads_iff.mp hp.reads).1, endsBefore_nil p⟩) .nil
  refine ⟨_, _, _, ⟨eq_of_toList hsource, ?_, ?_, ?_⟩, ?_, tokenize_of_cut hc.of_append_left rfl,
    tokens .first (p :: ps₂), ?_, ?_⟩
  · rw [hstart, utf8ByteSize_ofList, Place.offset_first_after]
  · rw [hstop, ← String.ofList_append, utf8ByteSize_ofList, after_after, Place.offset_first_after]
  · rw [hline, String.toList_ofList, Place.line_first_after]
  · rw [tokenize_of_cut hone (by simp), tokens_singleton, hk, utf8ByteSize_ofList,
      Place.offset_first_after]
    rfl
  · rw [← String.ofList_append]
    exact tokenize_of_cut hp rfl
  · rw [String.toList_ofList, utf8ByteSize_ofList, ← tokens_after_first, tokens_cons, ht,
      after_after, spell_append]
    simp

/-- The tokens of a script are where they say. -/
theorem wellPlaced_of_tokenize {source : String} {ts : List Token}
    (h : tokenize source = .ok ts) : WellPlaced source ts := by
  obtain ⟨ps, hps, rfl⟩ := tokenize_eq_ok h
  obtain ⟨hs, hc⟩ := pieces_eq_ok_iff.mp hps
  obtain ⟨hordered, hbounds⟩ := Piece.tokens_ordered hc .first
  refine ⟨fun t ht => (hbounds t ht).2, hordered, Piece.stands_of_tokens hc hs, ?_⟩
  intro front back hts
  obtain ⟨ps₁, ps₂, rfl, rfl, hstop⟩ := Piece.exists_front hts
  obtain ⟨blanks, rest, rfl, hb, hstart⟩ :=
    Piece.exists_blanks ps₂ (Place.first.after (Piece.spell ps₁))
  have hsource : Piece.spell ps₁ ++ Piece.spell blanks ++ Piece.spell rest = source.toList := by
    rw [← hs, Piece.spell_append, Piece.spell_append, List.append_assoc]
  refine ⟨_, _, _, eq_of_toList hsource, ?_, ?_, ?_⟩
  · rw [hstop, utf8ByteSize_ofList]
  · have hsize : source.utf8ByteSize =
        ((Place.first.after (Piece.spell ps₁)).after (Piece.spell (blanks ++ rest))).offset := by
      rw [Piece.after_after, ← Piece.spell_append, hs, Place.offset_first_after, byteSize_toList]
    rw [hsize, hstart, ← String.ofList_append, utf8ByteSize_ofList, Piece.after_after,
      Place.offset_first_after]
  · rw [String.toList_ofList, String.toList_ofList]
    exact gap_of_cut hc.of_append_right hb

/-! ## 4. Faults -/

/-- Where a script is refused: what stands before the fault is the longest beginning of the script
that has tokens, and the refusal tells the line on which the fault begins. -/
structure FaultAt (source : String) (e : LexError) (before behind : String) : Prop where
  parts : source = before ++ behind
  reads : ∃ ts, tokenize before = .ok ts
  longest : ∀ {longer rest ts}, behind = longer ++ rest → longer ≠ "" →
    tokenize (before ++ longer) ≠ .ok ts
  offends : Offends e.fault behind.toList
  line : e.line = 1 + lineFeeds before.toList

theorem exists_faultAt {source : String} {e : LexError} (h : tokenize source = .error e) :
    ∃ before behind, FaultAt source e before behind := by
  obtain ⟨ps, c, cs, hcut, hf, hline⟩ := piecesFrom_eq_error_iff.mp (map_eq_error h)
  refine ⟨String.ofList (Piece.spell ps), String.ofList (c :: cs), ?_,
    ⟨_, tokenize_of_cut hcut.cut rfl⟩, ?_, ?_, ?_⟩
  · rw [← String.ofList_append, ← hcut.parts, String.ofList_toList]
  · intro longer rest ts hparts hne hts
    obtain ⟨qs, hqs, -⟩ := tokenize_eq_ok hts
    rw [pieces, String.toList_append, String.toList_ofList] at hqs
    have hchars : c :: cs = longer.toList ++ rest.toList := by
      rw [← String.toList_append, ← hparts, String.toList_ofList]
    exact hcut.not_longer hf hchars (by simpa using hne) 1 qs hqs
  · rw [String.toList_ofList]
    exact offends_of_pieceAt hf
  · rw [hline, String.toList_ofList]

/-- **Positions are exact.**  The tokens of a script are where they say, with nothing but blanks and
complete comments around them, and the script may be cut before any of them.  A script that is
refused has a longest beginning with tokens, and is refused on the line where that ends, for what
stands there. -/
theorem tokenize_positions (source : String) :
    (∀ ts, tokenize source = .ok ts → WellPlaced source ts) ∧
    ∀ e, tokenize source = .error e → ∃ before behind, FaultAt source e before behind :=
  ⟨fun _ => wellPlaced_of_tokenize, fun _ => exists_faultAt⟩

end ScriptPlugins.Language
