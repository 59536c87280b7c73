import ScriptPlugins.Proofs.Language.Pieces

/-!
# Faults — where a text that cannot be cut is at fault

A text that is refused has a longest beginning that can be cut.  What stands behind it begins no
piece, whatever may follow: a character of no piece, a slash alone, a comment or a string that does
not end, or an unknown escape in a string.  The refusal tells which, and the line it begins on.
-/

namespace ScriptPlugins.Language

/-! ## 1. What begins no piece -/

/-- What may stand in a string before its closing quote. -/
inductive StringBody (quote : Char) : List Char → Prop
  | nil : StringBody quote []
  | char {c : Char} {cs : List Char} : c ≠ quote → c ≠ '\\' → c ≠ '\n' → StringBody quote cs →
    StringBody quote (c :: cs)
  | escape {e v : Char} {cs : List Char} : unescape e = some v → StringBody quote cs →
    StringBody quote ('\\' :: e :: cs)

/-- A string is broken off by the end of its line or of the text. -/
inductive BrokenOff : List Char → Prop
  | atEnd : BrokenOff []
  | inEscape : BrokenOff ['\\']
  | atLineFeed (cs : List Char) : BrokenOff ('\n' :: cs)

/-- The texts that begin with no piece, by what is wrong with them. -/
inductive Offends : LexFault → List Char → Prop
  | stray {c : Char} {cs : List Char} : isBlank c = false → markKind c = none →
    c ∉ ['/', '\'', '"'] → isWordStart c = false → Offends (.unexpected c) (c :: cs)
  | slash {cs : List Char} : (∀ c ∈ cs.head?, c ≠ '/' ∧ c ≠ '*') →
    Offends (.unexpected '/') ('/' :: cs)
  | comment {cs : List Char} : ¬['*', '/'] <:+: cs → Offends .unterminatedComment ('/' :: '*' :: cs)
  | string {quote : Char} {body rest : List Char} : quote ∈ ['\'', '"'] → StringBody quote body →
    BrokenOff rest → Offends .unterminatedString (quote :: (body ++ rest))
  | escape {quote e : Char} {body rest : List Char} : quote ∈ ['\'', '"'] → StringBody quote body →
    unescape e = none → Offends (.unknownEscape e) (quote :: (body ++ '\\' :: e :: rest))

/-- A comment ends at the first `*/`, if there is one. -/
theorem commentRest_eq_none {cs : List Char} (h : commentRest cs = none) : ¬['*', '/'] <:+: cs := by
  induction cs using commentRest.induct with
  | case1 cs => cases h
  | case2 c cs hne ih =>
    rw [commentRest] at h
    · rw [List.infix_cons_iff]
      rintro (hp | hi)
      · -- The comment would end here.
        obtain ⟨rest, hrest⟩ := hp
        obtain ⟨rfl, rfl⟩ := List.cons.inj hrest
        exact hne rest rfl rfl
      · exact ih (Option.map_eq_none_iff.mp h) hi
    · intro ds hc hds
      exact hne ds hc hds
  | case3 => simp

/-- A string that is not closed is broken off or has an unknown escape. -/
theorem stringRest_eq_error {quote : Char} {cs : List Char} {fault : LexFault}
    (h : stringRest quote cs = .error fault) :
    ∃ body rest, cs = body ++ rest ∧ StringBody quote body ∧
      (fault = .unterminatedString ∧ BrokenOff rest ∨
        ∃ e rest', rest = '\\' :: e :: rest' ∧ unescape e = none ∧ fault = .unknownEscape e) := by
  -- Two cases go on behind what they take. All others end the string, and one of them well.
  induction cs using stringRest.induct quote with
  | case1 => cases h; exact ⟨[], [], rfl, .nil, .inl ⟨rfl, .atEnd⟩⟩
  | case2 => cases h; exact ⟨[], ['\\'], rfl, .nil, .inl ⟨rfl, .inEscape⟩⟩
  | case3 e cs he =>
    rw [stringRest, he] at h
    cases h
    exact ⟨[], _, rfl, .nil, .inr ⟨e, cs, rfl, he, rfl⟩⟩
  | case4 e cs v he ih =>
    rw [stringRest, he] at h
    obtain ⟨body, rest, rfl, hbody, hrest⟩ := ih (map_eq_error h)
    exact ⟨'\\' :: e :: body, rest, rfl, .escape he hbody, hrest⟩
  | case5 cs h₁ h₂ =>
    rw [stringRest_cons (by decide), if_pos rfl] at h
    cases h
    exact ⟨[], _, rfl, .nil, .inl ⟨rfl, .atLineFeed cs⟩⟩
  | case6 cs h₁ h₂ hn =>
    rw [stringRest_cons (ne_backslash h₁ h₂), if_neg hn, if_pos rfl] at h
    cases h
  | case7 c cs h₁ h₂ hn hq ih =>
    have hc := ne_backslash h₁ h₂
    rw [stringRest_cons hc, if_neg hn, if_neg hq] at h
    obtain ⟨body, rest, rfl, hbody, hrest⟩ := ih (map_eq_error h)
    exact ⟨c :: body, rest, rfl, .char hq hc hn hbody, hrest⟩

theorem offends_of_slashPiece {cs : List Char} {fault : LexFault}
    (h : slashPiece cs = .error fault) : Offends fault ('/' :: cs) := by
  unfold slashPiece at h
  split at h
  next => cases h
  next ds =>
    split at h
    next => cases h
    next hd => cases h; exact .comment (commentRest_eq_none hd)
  next h₁ h₂ =>
    cases h
    refine .slash ?_
    rintro c hc
    obtain ⟨ds, rfl⟩ := List.head?_eq_some_iff.mp hc
    exact ⟨fun h => h₁ ds (by rw [h]), fun h => h₂ ds (by rw [h])⟩

/-- What a text begins with is a piece, or offends. -/
theorem offends_of_pieceAt {c : Char} {cs : List Char} {fault : LexFault}
    (h : pieceAt c cs = .error fault) : Offends fault (c :: cs) := by
  cases initial c with
  | blank _ hread => rw [hread] at h; cases h
  | mark _ _ hread => rw [hread] at h; cases h
  | slash hs hread =>
    rw [hread] at h
    exact hs ▸ offends_of_slashPiece h
  | quote hq hread =>
    rw [hread] at h
    obtain ⟨body, rest, rfl, hbody, ⟨rfl, hrest⟩ | ⟨e, rest', rfl, he, rfl⟩⟩ :=
      stringRest_eq_error (map_eq_error h)
    · exact .string hq hbody hrest
    · exact .escape hq hbody he
  | word hread => rw [hread] at h; cases h
  | stray hb hk hc hw hread =>
    rw [hread] at h
    cases h
    exact .stray hb hk hc hw

/-! ## 2. A text that goes on -/

theorem exists_slashPiece_append {cs : List Char} {p : Piece} (h : slashPiece cs = .ok p)
    (ds : List Char) : ∃ q, slashPiece (cs ++ ds) = .ok q := by
  rcases slashPiece_cases h with ⟨es, rfl, -⟩ | ⟨es, text, rfl, htext, -⟩
  · exact ⟨_, rfl⟩
  · obtain ⟨rest, rfl, hrest⟩ := commentRest_eq_some htext
    simp only [slashPiece, List.cons_append, List.append_assoc, hrest]
    exact ⟨_, rfl⟩

/-- A text that begins with a piece does so, maybe with a longer one, if more is written behind. -/
theorem exists_pieceAt_append {c : Char} {cs : List Char} {p : Piece} (h : pieceAt c cs = .ok p)
    (ds : List Char) : ∃ q, pieceAt c (cs ++ ds) = .ok q := by
  cases initial c with
  | blank _ hread => exact ⟨_, hread _⟩
  | mark _ _ hread => exact ⟨_, hread _⟩
  | slash _ hread =>
    rw [hread] at h ⊢
    exact exists_slashPiece_append h ds
  | quote _ hread =>
    rw [hread] at h ⊢
    obtain ⟨⟨text, value⟩, hr, -⟩ := map_eq_ok h
    obtain ⟨rest, rfl, hrest⟩ := stringRest_eq_ok hr
    rw [List.append_assoc, hrest]
    exact ⟨_, rfl⟩
  | word hread => exact ⟨_, hread _⟩
  | stray _ _ _ _ hread =>
    rw [hread] at h
    cases h

/-! ## 3. Where a text is at fault -/

theorem Piece.EndsBefore.of_append {p : Piece} {cs ds : List Char} (h : p.EndsBefore (cs ++ ds)) :
    p.EndsBefore cs := by
  cases cs with
  | nil => exact Piece.endsBefore_nil p
  | cons c cs => exact h

/-- A text that is cut into pieces up to one of its characters. -/
structure CutUpTo (text : List Char) (ps : List Piece) (c : Char) (cs : List Char) : Prop where
  parts : text = Piece.spell ps ++ c :: cs
  cut : Cut ps
  ends : ∀ p ∈ ps.getLast?, p.EndsBefore (c :: cs)

namespace CutUpTo

variable {p : Piece} {ps : List Piece} {text cs : List Char} {c : Char}

theorem nil (c : Char) (cs : List Char) : CutUpTo (c :: cs) [] c cs := ⟨rfl, .nil, nofun⟩

theorem cons (hp : p.Reads text) (h : CutUpTo text ps c cs) :
    CutUpTo (p.text ++ text) (p :: ps) c cs := by
  obtain ⟨rfl, hcut, hends⟩ := h
  obtain ⟨hread, he⟩ := Piece.reads_iff.mp hp
  refine ⟨by rw [Piece.spell_cons, List.append_assoc], .cons ?_ hcut, fun q hq => ?_⟩
  · exact Piece.reads_iff.mpr ⟨hread, he.of_append⟩
  · cases ps with
    | nil =>
      obtain rfl : p = q := by simpa using hq
      exact he
    | cons r rs => exact hends q (by rwa [List.getLast?_cons_cons] at hq)

theorem of_cons (h : CutUpTo text (p :: ps) c cs) :
    ∃ text', text = p.text ++ text' ∧ p.Reads text' ∧ CutUpTo text' ps c cs := by
  obtain ⟨rfl, hcut, hends⟩ := h
  refine ⟨Piece.spell ps ++ c :: cs, by rw [Piece.spell_cons, List.append_assoc], ?_, rfl,
    hcut.tail, fun q hq => ?_⟩
  · obtain ⟨hread, he⟩ := Piece.reads_iff.mp hcut.reads
    refine Piece.reads_iff.mpr ⟨hread, ?_⟩
    cases ps with
    | nil => exact hends p rfl
    | cons r rs =>
      -- The next piece has a first character, and only that one counts.
      obtain ⟨d, ds, hr, -⟩ := hcut.tail.reads
      rw [Piece.spell_cons, hr] at he ⊢
      exact he
  · obtain ⟨init, rfl⟩ := List.getLast?_eq_some_iff.mp hq
    exact hends q (by rw [← List.cons_append, List.getLast?_concat]; rfl)

end CutUpTo

/-- A text is refused exactly if it is cut up to something that begins no piece, and on the line
where that begins. -/
theorem piecesFrom_eq_error_iff {line : Nat} {text : List Char} {e : LexError} :
    piecesFrom line text = .error e ↔ ∃ ps c cs, CutUpTo text ps c cs ∧
      pieceAt c cs = .error e.fault ∧ e.line = line + lineFeeds (Piece.spell ps) := by
  constructor
  · intro h
    induction line, text using piecesFrom.induct with
    | case1 line =>
      rw [piecesFrom] at h
      cases h
    | case2 line c cs fault hf =>
      rw [piecesFrom, hf] at h
      cases h
      exact ⟨[], c, cs, .nil c cs, hf, rfl⟩
    | case3 line c cs p hp ih =>
      -- Lines are counted over the pieces that were read before.
      obtain ⟨rest, htext, hread, hd⟩ := exists_reads hp
      rw [htext, piecesFrom_append hread] at h
      rw [hd] at ih
      obtain ⟨ps, d, ds, hcut, hf, hline⟩ := ih (map_eq_error h)
      refine ⟨p :: ps, d, ds, htext ▸ hcut.cons hread, hf, ?_⟩
      rw [hline, Piece.spell_cons, lineFeeds_append, Nat.add_assoc]
  · rintro ⟨ps, d, ds, hcut, hf, hline⟩
    induction ps generalizing line text with
    | nil =>
      obtain rfl : text = d :: ds := hcut.parts
      rw [piecesFrom, hf]
      exact congrArg Except.error (by cases e; simpa [lineFeeds] using hline.symm)
    | cons p ps ih =>
      obtain ⟨text', rfl, hread, hcut⟩ := hcut.of_cons
      rw [Piece.spell_cons, lineFeeds_append, ← Nat.add_assoc] at hline
      rw [piecesFrom_append hread, ih hcut hline]
      rfl

/-- No longer beginning of such a text can be cut. -/
theorem CutUpTo.not_longer {ps : List Piece} {text cs longer rest : List Char} {c : Char}
    {fault : LexFault} (h : CutUpTo text ps c cs) (hf : pieceAt c cs = .error fault)
    (hparts : c :: cs = longer ++ rest) (hne : longer ≠ []) (line : Nat) (qs : List Piece) :
    piecesFrom line (Piece.spell ps ++ longer) ≠ .ok qs := by
  obtain ⟨d, ds, rfl⟩ := List.exists_cons_of_ne_nil hne
  rw [List.cons_append] at hparts
  obtain ⟨rfl, rfl⟩ := List.cons.inj hparts
  have hcut : CutUpTo (Piece.spell ps ++ c :: ds) ps c ds := ⟨rfl, h.cut, h.ends⟩
  -- A piece that begins the shorter text would begin, or be the beginning of, one of the longer.
  cases hd : pieceAt c ds with
  | ok p =>
    obtain ⟨q, hq⟩ := exists_pieceAt_append hd rest
    rw [hf] at hq
    cases hq
  | error fault' =>
    have herror : piecesFrom line (Piece.spell ps ++ c :: ds) =
        .error ⟨line + lineFeeds (Piece.spell ps), fault'⟩ :=
      piecesFrom_eq_error_iff.mpr ⟨ps, c, ds, hcut, hd, rfl⟩
    rw [herror]
    exact nofun

end ScriptPlugins.Language
