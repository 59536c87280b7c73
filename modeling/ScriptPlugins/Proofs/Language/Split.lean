import ScriptPlugins.Compile.Lowering
import ScriptPlugins.Proofs.Language.Derivation

/-!
# Split — the halves of a script, token by token and statement by statement

The splitter cuts pieces and counts braces, the parser descends through tokens.  Both agree on where
the leading block ends: the preamble has the tokens of the block, the body all others, and every
token keeps its line.  So the halves are the statements of the script, and its errors are theirs.
-/

namespace ScriptPlugins.Language

open ScriptPlugins.Text (byteSize)

/-! ## 1. The tokens of a block -/

/-- The tokens of a block, one by one. -/
theorem exists_tokens_of_isBlock {block : List Token} (h : IsBlock (block.map Token.kind)) :
    ∃ word breaks brace inner close, block = word :: (breaks ++ brace :: (inner ++ [close])) ∧
      word.kind = .word "plugins" ∧ (∀ t ∈ breaks, t.isLineFeed) ∧ brace.kind = .openBrace ∧
      Balanced (inner.map Token.kind) ∧ close.kind = .closeBrace := by
  generalize hks : block.map Token.kind = ks at h
  obtain @⟨n, inner, hinner⟩ := h
  rw [List.cons_append, List.cons_append, List.append_assoc] at hks
  obtain ⟨word, ts, rfl, hword, hts⟩ := List.map_eq_cons_iff.mp hks
  obtain ⟨breaks, us, rfl, hbreaks, hus⟩ := List.map_eq_append_iff.mp hts
  obtain ⟨brace, vs, rfl, hbrace, hvs⟩ := List.map_eq_cons_iff.mp hus
  obtain ⟨inner, ws, rfl, rfl, hws⟩ := List.map_eq_append_iff.mp hvs
  obtain ⟨close, xs, rfl, hclose, hxs⟩ := List.map_eq_cons_iff.mp hws
  obtain rfl := List.map_eq_nil_iff.mp hxs
  refine ⟨word, breaks, brace, inner, close, rfl, hword, fun t ht => ?_, hbrace, hinner, hclose⟩
  have hk : t.kind ∈ List.replicate n TokenKind.lineFeed := by
    rw [← hbreaks]
    exact List.mem_map_of_mem ht
  simp [Token.isLineFeed, List.eq_of_mem_replicate hk]

/-- No closing brace stands in balanced kinds unless an opening one stands before it. -/
theorem Balanced.not_closed_early {ks us rest : List TokenKind} (h : Balanced ks)
    (hks : ks = us ++ .closeBrace :: rest) : .openBrace ∈ us := by
  induction h generalizing us with
  | nil => cases us <;> cases hks
  | plain ho hc _ ih =>
    cases us with
    | nil => exact absurd (List.cons.inj hks).1 hc
    | cons u us => exact List.mem_cons_of_mem _ (ih (List.cons.inj hks).2)
  | nest =>
    cases us with
    | nil => cases hks
    | cons u us =>
      obtain ⟨rfl, -⟩ := List.cons.inj hks
      exact List.mem_cons_self

theorem balanced_of_plain {us : List Token} (h : ∀ u ∈ us, u.Plain) :
    Balanced (us.map Token.kind) := by
  induction us with
  | nil => exact .nil
  | cons u us ih =>
    have hu := h u List.mem_cons_self
    exact .plain hu.1 hu.2 (ih fun v hv => h v (List.mem_cons_of_mem u hv))

/-- The requests of a block end with its matching brace. -/
theorem takeSpecs_inner {last line : Nat} {inner rest : List Token} {close : Token}
    {specs : List PluginSpec} (hb : Balanced (inner.map Token.kind))
    (h : takeSpecs last line (inner ++ [close]) = .ok (specs, rest)) : rest = [] := by
  obtain ⟨us, close', hparts, hus, hclose⟩ := takeSpecs_eq_ok h
  rcases List.append_eq_append_iff.mp hparts with ⟨vs, rfl, hvs⟩ | ⟨vs, rfl, hvs⟩
  · cases vs with
    | nil => exact (List.cons.inj hvs).2.symm
    | cons v vs => cases vs <;> cases hvs
  · cases vs with
    | nil => exact (List.cons.inj hvs).2
    | cons v vs =>
      obtain ⟨rfl, rfl⟩ := List.cons.inj hvs
      -- A brace that closes before the last one is matched by one that the reader would not take.
      have ho : TokenKind.openBrace ∈ us.map Token.kind := by
        have hkinds : (us ++ close' :: vs).map Token.kind =
            us.map Token.kind ++ .closeBrace :: vs.map Token.kind := by
          rw [List.map_append, List.map_cons, hclose]
        exact hb.not_closed_early hkinds
      obtain ⟨u, hu, huk⟩ := List.mem_map.mp ho
      exact absurd huk (hus u hu).1

/-! ## 2. The statement of a block -/

/-- The statement that a block is. -/
def blockStatement : List Token → Except ParseError Statement
  | [] => .error ⟨1, .openBlock⟩
  | word :: ts => (takeForm word.line word ts).map fun (form, _) => ⟨word.line, form⟩

/-- A block is read alike wherever it stands, and up to its end. -/
theorem takeForm_block {word : Token} {ts : List Token}
    (h : IsBlock ((word :: ts).map Token.kind)) (last : Nat) (behind : List Token) :
    takeForm last word (ts ++ behind) =
      (blockStatement (word :: ts)).map fun s => (s.form, behind) := by
  obtain ⟨word, breaks, brace, inner, close, hts, hword, hbreaks, hbrace, hinner, hclose⟩ :=
    exists_tokens_of_isBlock h
  obtain ⟨rfl, rfl⟩ := List.cons.inj hts
  have hb : ¬brace.isLineFeed := by simp [Token.isLineFeed, hbrace]
  have hdrop (ys : List Token) :
      (breaks ++ brace :: (inner ++ [close] ++ ys)).dropWhile Token.isLineFeed =
        brace :: (inner ++ [close] ++ ys) := by
    rw [List.dropWhile_append_of_pos hbreaks, List.dropWhile_cons_of_neg hb]
  have hform (last : Nat) (ys : List Token) :
      takeForm last word (breaks ++ brace :: (inner ++ [close] ++ ys)) =
        takeSpecs last word.line (inner ++ [close] ++ ys) >>= fun r =>
          .ok (.plugins r.1, r.2) := by
    simp only [takeForm, hword, if_true, hdrop, takeKind, hbrace]
    rfl
  -- The block ends in its brace, so what stands behind it does not count.
  have hcloses : Token.Closes (inner ++ [close]) := ⟨close, by simp, hclose⟩
  have hts (ys : List Token) : breaks ++ brace :: (inner ++ [close]) ++ ys =
      breaks ++ brace :: (inner ++ [close] ++ ys) := by simp
  rw [hts, hform, takeSpecs_append hcloses last word.line, blockStatement,
    ← List.append_nil (breaks ++ brace :: (inner ++ [close])), hts, hform, List.append_nil]
  cases hs : takeSpecs word.line word.line (inner ++ [close]) with
  | error e => rfl
  | ok r =>
    have hr : r.2 = [] := takeSpecs_inner hinner hs
    show Except.ok (Form.plugins r.1, r.2 ++ behind) = .ok (Form.plugins r.1, behind)
    rw [hr, List.nil_append]

theorem takeStatements_skip {fillers : List Token} (h : ∀ t ∈ fillers, t.isTerminator) (last : Nat)
    (ts : List Token) : takeStatements last (fillers ++ ts) = takeStatements last ts := by
  rw [← takeStatements_dropWhile, List.dropWhile_append_of_pos h, takeStatements_dropWhile]

theorem takeStatements_nil (last : Nat) : takeStatements last [] = .ok [] := by
  rw [takeStatements_eq]
  rfl

/-- What is left behind the end of a statement are the statements that follow. -/
theorem takeEnd_takeStatements {α : Type} (last : Nat) (ts : List Token)
    (f : List Statement → Except ParseError α) :
    (takeEnd false ts >>= fun x => takeStatements last x.2 >>= f) =
      takeEnd false ts >>= fun _ => takeStatements last ts >>= f := by
  cases h : takeEnd false ts with
  | error e => rfl
  | ok x =>
    show takeStatements last x.2 >>= f = takeStatements last ts >>= f
    rw [takeStatements_of_takeEnd h]

/-- The statements of tokens with a leading block: its own, and those of the tokens behind it, if
the statement ends there. -/
theorem takeStatements_block {tokens before block behind : List Token}
    (h : LeadingBlock tokens before block behind) (last : Nat) :
    takeStatements last tokens = do
      let s ← blockStatement block
      let _ ← takeEnd false behind
      let ss ← takeStatements last behind
      return s :: ss := by
  obtain ⟨rfl, hbefore, hblock⟩ := h
  obtain ⟨word, breaks, brace, inner, close, rfl, hword, -⟩ := exists_tokens_of_isBlock hblock
  have hw : ¬word.isTerminator := by simp [Token.isTerminator, TokenKind.isTerminator, hword]
  generalize breaks ++ brace :: (inner ++ [close]) = ts at hblock ⊢
  rw [List.append_assoc, takeStatements_skip hbefore, List.cons_append, takeStatements_eq,
    List.dropWhile_cons_of_neg hw]
  simp only [takeStatement, takeForm_block hblock last behind]
  cases hs : blockStatement (word :: ts) with
  | error e => rfl
  | ok s =>
    have hline : (⟨word.line, s.form⟩ : Statement) = s := by
      obtain ⟨r, -, he⟩ := map_eq_ok hs
      rw [← he]
    -- An end of a statement that is read before the rest is read along with it.
    have hend := takeEnd_takeStatements last behind fun ss => .ok (s :: ss)
    show _ = takeEnd false behind >>= fun _ => takeStatements last behind >>=
      fun ss => .ok (s :: ss)
    rw [← hend]
    show (takeEnd false behind >>= fun x => .ok ((⟨word.line, s.form⟩ : Statement), x.2)) >>=
      (fun x => (takeStatements last x.2).map (x.1 :: ·)) = _
    rw [hline]
    cases takeEnd false behind with
    | error e => rfl
    | ok x =>
      show (takeStatements last x.2).map (s :: ·) = _
      cases hx : takeStatements last x.2 <;> (show _ = takeStatements last x.2 >>= _; rw [hx]; rfl)

/-- Only a word, line feeds and a brace begin a plugins statement. -/
theorem takeForm_eq_plugins {last : Nat} {t : Token} {ts rest : List Token}
    {specs : List PluginSpec} (h : takeForm last t ts = .ok (.plugins specs, rest)) :
    t.kind = .word "plugins" ∧ ∃ brace inner, ts.dropWhile Token.isLineFeed = brace :: inner ∧
      brace.kind = .openBrace ∧ takeSpecs last t.line inner = .ok (specs, rest) := by
  cases formRead_of_takeForm h with
  | plugins hword hbrace hread =>
    obtain ⟨brace, hbrace⟩ := takeKind_eq_ok_iff.mp hbrace
    exact ⟨hword, brace.token, _, hbrace, brace.kind_eq, hread⟩

theorem map_kind_takeWhile_isLineFeed (ts : List Token) :
    (ts.takeWhile Token.isLineFeed).map Token.kind =
      List.replicate (ts.takeWhile Token.isLineFeed).length .lineFeed := by
  refine List.eq_replicate_iff.mpr ⟨List.length_map _, fun k hk => ?_⟩
  obtain ⟨t, ht, rfl⟩ := List.mem_map.mp hk
  simpa [Token.isLineFeed] using List.mem_takeWhile_imp ht

/-- A script that parses to a plugins block first has a leading block. -/
theorem leadingBlock_of_takeStatements {last : Nat} {ts : List Token} {s : Statement}
    {ss : List Statement} {specs : List PluginSpec} (h : takeStatements last ts = .ok (s :: ss))
    (hs : s.form = .plugins specs) :
      ∃ before block behind, LeadingBlock ts before block behind := by
  have hts := List.takeWhile_append_dropWhile (p := Token.isTerminator) (l := ts)
  cases takeStatements_eq_ok_iff.mp h with
  | @cons _ rest _ word _ _ next read _ =>
    rw [next] at hts
    obtain ⟨⟨form, behind⟩, hform, hread⟩ := bind_eq_ok read
    obtain ⟨_, -, hread⟩ := bind_eq_ok hread
    cases hread
    obtain rfl : form = .plugins specs := hs
    obtain ⟨hword, brace, inner, hdrop, hbrace, hspecs⟩ := takeForm_eq_plugins hform
    obtain ⟨us, close, rfl, hus, hclose⟩ := takeSpecs_eq_ok hspecs
    have hrest := List.takeWhile_append_dropWhile (p := Token.isLineFeed) (l := rest)
    rw [hdrop] at hrest
    refine ⟨ts.takeWhile Token.isTerminator,
      word :: (rest.takeWhile Token.isLineFeed ++ brace :: (us ++ [close])), behind, ?_,
      fun t ht => List.mem_takeWhile_imp ht, ?_⟩
    · conv_lhs => rw [← hts, ← hrest]
      simp
    · have hb := IsBlock.intro (rest.takeWhile Token.isLineFeed).length (balanced_of_plain hus)
      simpa [hword, map_kind_takeWhile_isLineFeed, hbrace, hclose] using hb

/-! ## 3. The tokens of the halves -/

theorem tokenize_eq_ok {source : String} {ts : List Token} (h : tokenize source = .ok ts) :
    ∃ ps, pieces source = .ok ps ∧ ts = Piece.tokens .first ps := by
  obtain ⟨ps, hps, he⟩ := map_eq_ok h
  exact ⟨ps, hps, he.symm⟩

theorem tokenize_of_cut {ps : List Piece} {text : List Char} (hc : Cut ps)
    (hs : Piece.spell ps = text) :
    tokenize (String.ofList text) = .ok (Piece.tokens .first ps) := by
  have hp : pieces (String.ofList text) = .ok ps :=
    pieces_eq_ok_iff.mpr ⟨by rw [hs, String.toList_ofList], hc⟩
  rw [tokenize, hp]
  rfl

/-- The texts before the leading block of a script, of the block, and behind it, told by where the
tokens of the block stand. -/
structure BlockTexts (source : String) (block : List Token) (lead text rest : List Char) :
    Prop where
  spelled : source.toList = lead ++ text ++ rest
  begins : block.head?.map Token.start = some (byteSize lead)
  ends : block.getLast?.map Token.stop = some (byteSize (lead ++ text))

/-- The tokens of the preamble: line feeds and those of the block. -/
def PreambleTokens (block : List Token) (lead : List Char) (ts : List Token) : Prop :=
  ∃ feeds block', ts = feeds ++ block' ∧
    feeds.map Token.kind = List.replicate (lineFeeds lead) .lineFeed ∧
    block'.map Token.placed = block.map Token.placed

/-- The tokens of the body: those before the block, line feeds, and those behind the block. -/
def BodyTokens (before behind : List Token) (text : List Char) (ts : List Token) : Prop :=
  ∃ before' feeds behind', ts = before' ++ feeds ++ behind' ∧
    before'.map Token.placed = before.map Token.placed ∧
    feeds.map Token.kind = List.replicate (lineFeeds text) .lineFeed ∧
    behind'.map Token.placed = behind.map Token.placed

/-- The pieces of a script with a leading block, and its halves. -/
theorem split_of_leadingBlock {source : String} {ts before block behind : List Token}
    (hts : tokenize source = .ok ts) (h : LeadingBlock ts before block behind) :
    ∃ lead text rest, pieces source = .ok (lead ++ text ++ rest) ∧ (∀ p ∈ lead, p.isFiller) ∧
      Piece.Bounded text ∧
      before = Piece.tokens .first lead ∧
      block = Piece.tokens (Place.first.after (Piece.spell lead)) text ∧
      behind = Piece.tokens (Place.first.after (Piece.spell (lead ++ text))) rest ∧
      split source = ⟨String.ofList (List.replicate (lineFeeds (Piece.spell lead)) '\n' ++
          Piece.spell text),
        String.ofList (Piece.spell lead ++ blankOut (Piece.spell text) ++ Piece.spell rest)⟩ := by
  obtain ⟨ps, hps, hps'⟩ := tokenize_eq_ok hts
  have hkinds : Piece.kinds ps =
      before.map Token.kind ++ block.map Token.kind ++ behind.map Token.kind := by
    rw [← Piece.map_kind_tokens .first ps, ← hps', h.parts, List.map_append, List.map_append]
  have hfillers : ∀ k ∈ before.map Token.kind, k.isTerminator := by
    intro k hk
    obtain ⟨t, ht, rfl⟩ := List.mem_map.mp hk
    exact h.fillers t ht
  obtain ⟨lead, text, rest, hlead, hk₁, hk₂, hk₃⟩ := leadingBlock_of_kinds hkinds hfillers h.isBlock
  obtain ⟨rfl, hfiller, -, hbounded⟩ := isBlock_of_leadingBlock hlead
  have hparts := h.parts
  rw [hps', Piece.tokens_append, Piece.tokens_append] at hparts
  -- The parts of the pieces and those of the tokens have equal lengths, hence they are the same
  -- parts.
  have hl₁ : (Piece.tokens .first lead).length = before.length := by
    rw [← List.length_map Token.kind, Piece.map_kind_tokens, hk₁, List.length_map]
  have hl₂ : (Piece.tokens (Place.first.after (Piece.spell lead)) text).length = block.length := by
    rw [← List.length_map Token.kind, Piece.map_kind_tokens, hk₂, List.length_map]
  obtain ⟨hfront, hbehind⟩ := List.append_inj hparts (by rw [List.length_append, hl₁, hl₂,
    List.length_append])
  obtain ⟨hbefore, hblock⟩ := List.append_inj hfront hl₁
  refine ⟨lead, text, rest, hps, hfiller, hbounded, hbefore.symm, hblock.symm, hbehind.symm, ?_⟩
  rw [split, hps]
  simp only [hlead]

/-- The block of a script begins with its word and ends with its brace. -/
theorem blockTexts_of_bounded {source : String} {lead text rest : List Piece}
    (hps : pieces source = .ok (lead ++ text ++ rest)) (hb : Piece.Bounded text) :
    BlockTexts source (Piece.tokens (Place.first.after (Piece.spell lead)) text)
      (Piece.spell lead) (Piece.spell text) (Piece.spell rest) := by
  obtain ⟨word, inner, close, rfl, hword, hclose⟩ := hb
  refine ⟨?_, ?_, ?_⟩
  · rw [← (pieces_eq_ok_iff.mp hps).1, Piece.spell_append, Piece.spell_append]
  · rw [Piece.tokens, hword]
    simp [Place.after, Place.first]
  · rw [← List.cons_append, Piece.tokens_append, Piece.tokens, Piece.tokens, hclose,
      List.getLast?_append]
    simp [Piece.tokens, Place.after, Place.first, Text.byteSize_append, Nat.add_assoc]

theorem map_kind_tokens_blankPieces (at_ : Place) (cs : List Char) :
    (Piece.tokens at_ (blankPieces cs)).map Token.kind =
      List.replicate (lineFeeds cs) .lineFeed := by
  rw [Piece.map_kind_tokens, kinds_blankPieces]

theorem blankOut_replicate (n : Nat) :
    blankOut (List.replicate n '\n') = List.replicate n '\n' := by
  rw [blankOut, List.map_replicate]
  rfl

/-- The preamble of a script is cut into line feeds and the pieces of its block. -/
theorem preambleTokens_of_cut {lead text rest : List Piece} (hc : Cut (lead ++ text ++ rest)) :
    ∃ ts, tokenize (String.ofList (List.replicate (lineFeeds (Piece.spell lead)) '\n' ++
        Piece.spell text)) = .ok ts ∧
      PreambleTokens (Piece.tokens (Place.first.after (Piece.spell lead)) text)
        (Piece.spell lead) ts := by
  let feeds := List.replicate (lineFeeds (Piece.spell lead)) '\n'
  have hfeeds : lineFeeds feeds = lineFeeds (Piece.spell lead) := by simp [feeds, lineFeeds]
  have htext : Cut text := hc.of_append_left.of_append_right
  have hcut : Cut (blankPieces feeds ++ text) :=
    (cut_blankPieces feeds).append htext fun p hp =>
      Piece.endsBefore_of_closed (closed_of_mem_blankPieces (List.mem_of_getLast? hp)) _
  have hspell : Piece.spell (blankPieces feeds ++ text) = feeds ++ Piece.spell text := by
    rw [Piece.spell_append, spell_blankPieces, blankOut_replicate]
  refine ⟨_, tokenize_of_cut hcut hspell, _, _, Piece.tokens_append _ _ _, ?_, ?_⟩
  · rw [map_kind_tokens_blankPieces, hfeeds]
  · apply Piece.map_placed_tokens
    simp [Place.after, hfeeds]

/-- The body of a script is cut into the pieces around its block and blanks in its place. -/
theorem bodyTokens_of_cut {lead text rest : List Piece} (hc : Cut (lead ++ text ++ rest))
    (hf : ∀ p ∈ lead, p.isFiller) (hb : Piece.Bounded text) :
    ∃ ts, tokenize (String.ofList (Piece.spell lead ++ blankOut (Piece.spell text) ++
        Piece.spell rest)) = .ok ts ∧
      BodyTokens (Piece.tokens .first lead)
        (Piece.tokens (Place.first.after (Piece.spell (lead ++ text))) rest)
        (Piece.spell text) ts := by
  let blanks := blankPieces (Piece.spell text)
  -- The block begins with a letter, so nothing before it is open to what takes its place.
  have hclosed : ∀ p ∈ lead.getLast?, ∀ c, p.goesOn c = false := by
    intro p hp
    have he := hc.of_append_left.endsBefore_of_mem_getLast? p hp
    obtain ⟨word, inner, close, rfl, hword, -⟩ := hb
    obtain ⟨c, cs, hcs, hread⟩ := hc.of_append_left.of_append_right.reads
    have hn : c ≠ '\n' := by
      rintro rfl
      have hk : word.kind = some .lineFeed := by
        rw [pieceAt] at hread
        simp only [isBlank, markKind] at hread
        cases hread
        rfl
      rw [hk] at hword
      cases hword
    rw [Piece.spell_cons, hcs, List.cons_append, Piece.endsBefore_cons] at he
    exact Piece.closed_of_isFiller (hf p (List.mem_of_getLast? hp)) hn he
  have hblanks : ∀ p ∈ blanks.getLast?, ∀ c, p.goesOn c = false := fun p hp =>
    closed_of_mem_blankPieces (List.mem_of_getLast? hp)
  have hcut : Cut (lead ++ blanks ++ rest) := by
    rw [List.append_assoc]
    refine hc.of_append_left.of_append_left.append ((cut_blankPieces _).append hc.of_append_right
      fun p hp => Piece.endsBefore_of_closed (hblanks p hp) _) fun p hp =>
        Piece.endsBefore_of_closed (hclosed p hp) _
  have hspell : Piece.spell (lead ++ blanks ++ rest) =
      Piece.spell lead ++ blankOut (Piece.spell text) ++ Piece.spell rest := by
    rw [Piece.spell_append, Piece.spell_append, spell_blankPieces]
  refine ⟨_, tokenize_of_cut hcut hspell, Piece.tokens .first lead,
    Piece.tokens (Place.first.after (Piece.spell lead)) blanks,
    Piece.tokens (Place.first.after (Piece.spell (lead ++ blanks))) rest, ?_, rfl, ?_, ?_⟩
  · rw [Piece.tokens_append, Piece.tokens_append]
  · rw [map_kind_tokens_blankPieces]
  · apply Piece.map_placed_tokens
    simp [Place.after, blanks]

/-- The halves of a script with a leading block, as texts and as tokens. -/
theorem tokenize_split {source : String} {ts before block behind : List Token}
    (hts : tokenize source = .ok ts) (h : LeadingBlock ts before block behind) :
    ∃ lead text rest preamble body, BlockTexts source block lead text rest ∧
      tokenize (split source).preamble = .ok preamble ∧ PreambleTokens block lead preamble ∧
      tokenize (split source).body = .ok body ∧ BodyTokens before behind text body := by
  obtain ⟨lead, text, rest, hps, hf, hb, rfl, rfl, rfl, hsplit⟩ := split_of_leadingBlock hts h
  obtain ⟨-, hc⟩ := pieces_eq_ok_iff.mp hps
  obtain ⟨preamble, hpreamble, hp⟩ := preambleTokens_of_cut hc
  obtain ⟨body, hbody, hbt⟩ := bodyTokens_of_cut hc hf hb
  rw [hsplit]
  exact ⟨_, _, _, preamble, body, blockTexts_of_bounded hps hb, hpreamble, hp, hbody, hbt⟩

/-- A script without a leading block stays whole. -/
theorem split_of_no_leadingBlock {source : String}
    (h : ∀ ts before block behind, tokenize source = .ok ts →
      ¬LeadingBlock ts before block behind) : split source = ⟨"", source⟩ := by
  rw [split]
  split
  next => rfl
  next ps hps =>
    split
    next => rfl
    next lead text rest hlead =>
      obtain ⟨rfl, hf, hb, -⟩ := isBlock_of_leadingBlock hlead
      have hts : tokenize source = .ok (Piece.tokens .first (lead ++ text ++ rest)) := by
        rw [tokenize, hps]
        rfl
      -- A block found among the pieces would be one among the tokens.
      refine absurd ⟨?_, ?_, ?_⟩ (h _ (Piece.tokens .first lead)
        (Piece.tokens (Place.first.after (Piece.spell lead)) text)
        (Piece.tokens (Place.first.after (Piece.spell (lead ++ text))) rest) hts)
      · rw [Piece.tokens_append, Piece.tokens_append]
      · intro t ht
        have hk : t.kind ∈ Piece.kinds lead := by
          rw [← Piece.map_kind_tokens .first lead]
          exact List.mem_map_of_mem ht
        obtain ⟨p, hp, hpk⟩ := List.mem_filterMap.mp hk
        have hfp := hf p hp
        rw [Piece.isFiller, hpk] at hfp
        exact hfp
      · rwa [Piece.map_kind_tokens]

/-! ## 4. The statements of the halves -/

/-- The preamble parses to the statement of the block, or fails as the block does. -/
theorem parse_preamble {before block behind ts tokens : List Token} {lead : List Char}
    (h : LeadingBlock tokens before block behind) (hts : PreambleTokens block lead ts) :
    parse ts = (blockStatement block).map fun s => [s] := by
  obtain ⟨feeds, block', rfl, hfeeds, hplaced⟩ := hts
  have hskip : ∀ t ∈ feeds, t.isTerminator := by
    intro t ht
    have hk : t.kind ∈ List.replicate (lineFeeds lead) TokenKind.lineFeed := by
      rw [← hfeeds]
      exact List.mem_map_of_mem ht
    rw [Token.isTerminator, List.eq_of_mem_replicate hk]
    rfl
  have hblock : LeadingBlock block [] block [] := ⟨by simp, by simp, h.isBlock⟩
  rw [parse, takeStatements_skip hskip, takeStatements_eq_of_placed _ hplaced,
    takeStatements_block hblock]
  cases blockStatement block with
  | error e => rfl
  | ok s =>
    show (takeStatements _ [] >>= fun ss => .ok (s :: ss)) = .ok [s]
    rw [takeStatements_nil]
    rfl

theorem lastLine_append {ts us : List Token} (h : us ≠ []) : lastLine (ts ++ us) = lastLine us := by
  rw [lastLine, lastLine, List.getLast?_append, List.getLast?_eq_some_getLast h, Option.some_or]

theorem lastLine_eq_of_placed {ts us : List Token}
    (h : ts.map Token.placed = us.map Token.placed) : lastLine ts = lastLine us := by
  have hl (vs : List Token) :
      lastLine vs = (((vs.map Token.placed).getLast?).map Prod.snd).getD 1 := by
    rw [lastLine, List.getLast?_map, Option.map_map]
    rfl
  rw [hl, hl, h]

/-- The body parses to what the tokens behind the block are, read as they stand in the script. -/
theorem parse_body {before block behind ts tokens : List Token} {text : List Char}
    (h : LeadingBlock tokens before block behind) (hts : BodyTokens before behind text ts) :
    parse ts = takeStatements (lastLine tokens) behind := by
  obtain ⟨before', feeds, behind', rfl, hbefore, hfeeds, hplaced⟩ := hts
  have hskip : ∀ t ∈ before' ++ feeds, t.isTerminator := by
    intro t ht
    rcases List.mem_append.mp ht with ht | ht
    · have hp : t.placed ∈ before.map Token.placed := by
        rw [← hbefore]
        exact List.mem_map_of_mem ht
      obtain ⟨u, hu, hup⟩ := List.mem_map.mp hp
      have hk : u.kind = t.kind := congrArg Prod.fst hup
      have hterm := h.fillers u hu
      rwa [Token.isTerminator, hk] at hterm
    · have hk : t.kind ∈ List.replicate (lineFeeds text) TokenKind.lineFeed := by
        rw [← hfeeds]
        exact List.mem_map_of_mem ht
      rw [Token.isTerminator, List.eq_of_mem_replicate hk]
      rfl
  rw [parse, takeStatements_skip hskip, takeStatements_eq_of_placed _ hplaced]
  by_cases hb : behind = []
  · rw [hb, takeStatements_nil, takeStatements_nil]
  · have hb' : behind' ≠ [] := by
      rintro rfl
      exact hb (List.map_eq_nil_iff.mp hplaced.symm)
    rw [h.parts, lastLine_append hb', lastLine_append hb, lastLine_eq_of_placed hplaced]

/-- A script with a leading block is its preamble and its body, if the block ends its statement. -/
theorem parse_of_leadingBlock {before block behind tokens preamble body : List Token}
    {lead text : List Char} (h : LeadingBlock tokens before block behind)
    (hp : PreambleTokens block lead preamble) (hb : BodyTokens before behind text body) :
    parse tokens = do
      let first ← parse preamble
      let _ ← takeEnd false behind
      let others ← parse body
      return first ++ others := by
  rw [parse_preamble h hp, parse_body h hb, parse, takeStatements_block h]
  cases blockStatement block <;> rfl

/-- The refusal of a statement that goes on behind the leading block of a script. -/
def GoesOnBehindBlock (source : String) (e : CompileError) : Prop :=
  ∃ ts before block t behind, tokenize source = .ok ts ∧
    LeadingBlock ts before block (t :: behind) ∧ ¬t.isTerminator ∧
    e = .syntaxFault t.line (.statements (.notAtEnd t.kind))

theorem statementsOf_eq {source : String} {ts : List Token} (h : tokenize source = .ok ts) :
    statementsOf source = (parse ts).mapError fun e =>
      .syntaxFault e.line (.statements e.fault) := by
  rw [statementsOf, h]
  rfl

theorem statementsOf_eq_ok {source : String} {ss : List Statement}
    (h : statementsOf source = .ok ss) : ∃ ts, tokenize source = .ok ts ∧ parse ts = .ok ss := by
  obtain ⟨ts, hts, hss⟩ := bind_eq_ok h
  exact ⟨ts, mapError_eq_ok hts, mapError_eq_ok hss⟩

theorem statementsOf_empty : statementsOf "" = .ok [] := by
  have hts : tokenize "" = .ok [] := tokenize_of_cut .nil rfl
  rw [statementsOf_eq hts, parse, takeStatements_nil]
  rfl

/-- A script that begins with a plugins block parses to what its halves parse to. -/
theorem statementsOf_split {source : String} {s : Statement} {ss : List Statement}
    {specs : List PluginSpec} (h : statementsOf source = .ok (s :: ss))
    (hs : s.form = .plugins specs) :
    statementsOf (split source).preamble = .ok [s] ∧ statementsOf (split source).body = .ok ss := by
  obtain ⟨ts, hts, hparse⟩ := statementsOf_eq_ok h
  obtain ⟨before, block, behind, hblock⟩ := leadingBlock_of_takeStatements hparse hs
  obtain ⟨lead, text, rest, preamble, body, -, hp, hpt, hb, hbt⟩ := tokenize_split hts hblock
  rw [parse_of_leadingBlock hblock hpt hbt] at hparse
  obtain ⟨first, hfirst, hparse⟩ := bind_eq_ok hparse
  obtain ⟨_, -, hparse⟩ := bind_eq_ok hparse
  obtain ⟨others, hothers, hparse⟩ := bind_eq_ok hparse
  have hone : ∃ s', first = [s'] := by
    rw [parse_preamble hblock hpt] at hfirst
    obtain ⟨s', -, he⟩ := map_eq_ok hfirst
    exact ⟨s', he.symm⟩
  obtain ⟨s', rfl⟩ := hone
  obtain ⟨rfl, rfl⟩ := List.cons.inj (Except.ok.inj hparse)
  rw [statementsOf_eq hp, statementsOf_eq hb, hfirst, hothers]
  exact ⟨rfl, rfl⟩

/-- A statement ends, or goes on with the token at hand. -/
theorem takeEnd_false (ts : List Token) :
    (∃ x, takeEnd false ts = .ok x) ∨
      ∃ t us, ts = t :: us ∧ ¬t.isTerminator ∧
        takeEnd false ts = .error ⟨t.line, .notAtEnd t.kind⟩ := by
  cases ts with
  | nil => exact .inl ⟨_, rfl⟩
  | cons t us =>
    by_cases ht : t.isTerminator
    · exact .inl ⟨_, by rw [takeEnd, if_pos ht]⟩
    · exact .inr ⟨t, us, rfl, ht, by rw [takeEnd, if_neg ht, if_neg (by simp)]⟩

/-- A script that cannot be read has a half that cannot be read, for the same reason and on the same
line, unless its block does not end its statement. -/
theorem statementsOf_split_error {source : String} {e : CompileError}
    (h : statementsOf source = .error e) :
    statementsOf (split source).preamble = .error e ∨
      ∃ ss, statementsOf (split source).preamble = .ok ss ∧
        (statementsOf (split source).body = .error e ∨ GoesOnBehindBlock source e) := by
  by_cases hb : ∃ ts before block behind, tokenize source = .ok ts ∧
      LeadingBlock ts before block behind
  · obtain ⟨ts, before, block, behind, hts, hblock⟩ := hb
    obtain ⟨lead, text, rest, preamble, body, -, hp, hpt, hb, hbt⟩ := tokenize_split hts hblock
    rw [statementsOf_eq hts, parse_of_leadingBlock hblock hpt hbt] at h
    rw [statementsOf_eq hp, statementsOf_eq hb]
    cases hfirst : parse preamble with
    | error e' =>
      rw [hfirst] at h
      exact .inl h
    | ok first =>
      rw [hfirst] at h
      refine .inr ⟨first, rfl, ?_⟩
      -- Behind the block its statement ends, or a token goes on with it.
      rcases takeEnd_false behind with ⟨x, hx⟩ | ⟨t, us, rfl, ht, hx⟩
      · rw [hx] at h
        cases hothers : parse body with
        | error e' =>
          rw [hothers] at h
          exact .inl h
        | ok others =>
          rw [hothers] at h
          cases h
      · rw [hx] at h
        exact .inr ⟨ts, before, block, t, us, hts, hblock, ht, (Except.error.inj h).symm⟩
  · have hsplit := split_of_no_leadingBlock fun ts before block behind hts hblock =>
      hb ⟨ts, before, block, behind, hts, hblock⟩
    rw [hsplit]
    exact .inr ⟨[], statementsOf_empty, .inl h⟩

/-- **Splitting agrees with parsing.**  A script without a leading block stays whole.  Otherwise the
preamble has the tokens of the block and the body all others, each of its kind and on its line.  So
a script that begins with a plugins block parses to what its halves parse to, and the refusal of a
script is that of one of its halves, or is that its block goes on. -/
theorem split_agrees_with_parse (source : String) :
    ((∀ ts before block behind, tokenize source = .ok ts → ¬LeadingBlock ts before block behind) →
      split source = ⟨"", source⟩) ∧
    (∀ ts before block behind, tokenize source = .ok ts → LeadingBlock ts before block behind →
      ∃ lead text rest preamble body, BlockTexts source block lead text rest ∧
        tokenize (split source).preamble = .ok preamble ∧ PreambleTokens block lead preamble ∧
        tokenize (split source).body = .ok body ∧ BodyTokens before behind text body) ∧
    (∀ s ss specs, statementsOf source = .ok (s :: ss) → s.form = .plugins specs →
      statementsOf (split source).preamble = .ok [s] ∧
      statementsOf (split source).body = .ok ss) ∧
    (∀ e, statementsOf source = .error e →
      statementsOf (split source).preamble = .error e ∨
      ∃ ss, statementsOf (split source).preamble = .ok ss ∧
        (statementsOf (split source).body = .error e ∨ GoesOnBehindBlock source e)) := by
  refine ⟨split_of_no_leadingBlock, ?_, ?_, fun e => statementsOf_split_error⟩
  · intro ts before block behind
    exact tokenize_split
  · intro s ss specs
    exact statementsOf_split

end ScriptPlugins.Language
