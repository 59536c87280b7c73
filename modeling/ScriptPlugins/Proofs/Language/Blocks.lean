import ScriptPlugins.Proofs.Language.Pieces

/-!
# Blocks — where the leading plugins block of a script ends

A block ends with the brace that matches its first one.  The splitter finds it by counting braces
over pieces; here it is described by the kinds of the tokens alone, as a word and braces around
kinds that are balanced.  What has such kinds is found (`leadingBlock_of_kinds`), and what is found
has such kinds (`isBlock_of_leadingBlock`).
-/

namespace ScriptPlugins.Language

/-! ## 1. Balanced kinds -/

/-- Kinds in which every brace has its partner. -/
inductive Balanced : List TokenKind → Prop
  | nil : Balanced []
  | plain {k : TokenKind} {ks : List TokenKind} (ho : k ≠ .openBrace) (hc : k ≠ .closeBrace) :
    Balanced ks → Balanced (k :: ks)
  | nest {ks ms : List TokenKind} :
    Balanced ks → Balanced ms → Balanced (.openBrace :: ks ++ .closeBrace :: ms)

/-- The kinds of a plugins block, from its word to its matching brace. -/
inductive IsBlock : List TokenKind → Prop
  | intro (n : Nat) {inner : List TokenKind} : Balanced inner →
    IsBlock (.word "plugins" :: List.replicate n .lineFeed ++ .openBrace :: inner ++ [.closeBrace])

/-- The tokens before a leading plugins block, of the block, and behind it. -/
structure LeadingBlock (tokens before block behind : List Token) : Prop where
  parts : tokens = before ++ block ++ behind
  fillers : ∀ t ∈ before, t.isTerminator
  isBlock : IsBlock (block.map Token.kind)

/-! ## 2. Pieces of given kinds -/

namespace Piece

@[simp] theorem kinds_cons_none {p : Piece} (h : p.kind = none) (ps : List Piece) :
    kinds (p :: ps) = kinds ps := by simp [kinds, h]

@[simp] theorem kinds_cons_some {p : Piece} {k : TokenKind} (h : p.kind = some k)
    (ps : List Piece) : kinds (p :: ps) = k :: kinds ps := by simp [kinds, h]

/-- The piece of the first kind of a run, and the blank pieces before it. -/
theorem exists_of_kinds_eq_cons {ps : List Piece} {k : TokenKind} {ks : List TokenKind}
    (h : kinds ps = k :: ks) :
    ∃ blanks p rest, ps = blanks ++ p :: rest ∧ kinds blanks = [] ∧ p.kind = some k ∧
      kinds rest = ks := by
  induction ps with
  | nil => cases h
  | cons p ps ih =>
    cases hk : p.kind with
    | none =>
      rw [kinds_cons_none hk] at h
      obtain ⟨blanks, q, rest, rfl, hb, hq, hr⟩ := ih h
      exact ⟨p :: blanks, q, rest, rfl, by rw [kinds_cons_none hk, hb], hq, hr⟩
    | some l =>
      rw [kinds_cons_some hk] at h
      obtain ⟨rfl, rfl⟩ := List.cons.inj h
      exact ⟨[], p, ps, rfl, rfl, hk, rfl⟩

theorem all_blank_of_kinds_eq_nil {ps : List Piece} (h : kinds ps = []) :
    ∀ p ∈ ps, p.kind = none := List.filterMap_eq_nil_iff.mp h

/-- The pieces whose kinds all satisfy a test, before the first one that does not. -/
theorem span_eq_of_kinds {q : TokenKind → Bool} {ps : List Piece} {xs ys : List TokenKind}
    {k : TokenKind} (h : kinds ps = xs ++ k :: ys) (hxs : ∀ x ∈ xs, q x) (hk : q k = false) :
    ∃ front p rest, ps.span (fun p => p.kind.all q) = (front, p :: rest) ∧ ps = front ++ p :: rest ∧
      kinds front = xs ∧ p.kind = some k ∧ kinds rest = ys := by
  induction ps generalizing xs with
  | nil => cases xs <;> cases h
  | cons p ps ih =>
    cases hp : p.kind with
    | none =>
      rw [kinds_cons_none hp] at h
      -- A piece without a kind passes every test.
      obtain ⟨front, r, rest, hs, rfl, hf, hr, hrest⟩ := ih h hxs
      refine ⟨p :: front, r, rest, ?_, rfl, by rw [kinds_cons_none hp, hf], hr, hrest⟩
      rw [List.span_eq_takeWhile_dropWhile] at hs ⊢
      simp_all
    | some l =>
      rw [kinds_cons_some hp] at h
      cases xs with
      | nil =>
        obtain ⟨rfl, rfl⟩ := List.cons.inj h
        refine ⟨[], p, ps, ?_, rfl, rfl, hp, rfl⟩
        rw [List.span_eq_takeWhile_dropWhile]
        simp [hp, hk]
      | cons x xs =>
        obtain ⟨rfl, hps⟩ := List.cons.inj h
        obtain ⟨front, r, rest, hs, rfl, hf, hr, hrest⟩ :=
          ih hps fun y hy => hxs y (List.mem_cons_of_mem l hy)
        refine ⟨p :: front, r, rest, ?_, rfl, by rw [kinds_cons_some hp, hf], hr, hrest⟩
        rw [List.span_eq_takeWhile_dropWhile] at hs ⊢
        have hl := hxs l List.mem_cons_self
        simp_all

end Piece

/-! ## 3. Counting braces -/

theorem throughClosing_cons {p : Piece} (ho : p.kind ≠ some .openBrace)
    (hc : p.kind ≠ some .closeBrace) (depth : Nat) (ps : List Piece) :
    throughClosing depth (p :: ps) =
      (throughClosing depth ps).map fun (inner, rest) => (p :: inner, rest) := by
  conv_lhs => unfold throughClosing
  split <;> simp_all

theorem throughClosing_open {p : Piece} (h : p.kind = some .openBrace) (depth : Nat)
    (ps : List Piece) : throughClosing depth (p :: ps) =
      (throughClosing (depth + 1) ps).map fun (inner, rest) => (p :: inner, rest) := by
  simp only [throughClosing, h]

theorem throughClosing_close {p : Piece} (h : p.kind = some .closeBrace) (depth : Nat)
    (ps : List Piece) : throughClosing (depth + 1) (p :: ps) =
      (throughClosing depth ps).map fun (inner, rest) => (p :: inner, rest) := by
  simp only [throughClosing, h]

theorem throughClosing_zero {p : Piece} (h : p.kind = some .closeBrace) (ps : List Piece) :
    throughClosing 0 (p :: ps) = some ([p], ps) := by
  simp only [throughClosing, h]

theorem throughClosing_blanks {blanks : List Piece} (h : Piece.kinds blanks = []) (depth : Nat)
    (ps : List Piece) : throughClosing depth (blanks ++ ps) =
      (throughClosing depth ps).map fun (inner, rest) => (blanks ++ inner, rest) := by
  induction blanks with
  | nil => simp
  | cons p blanks ih =>
    have hp := Piece.all_blank_of_kinds_eq_nil h p List.mem_cons_self
    rw [Piece.kinds_cons_none hp] at h
    rw [List.cons_append, throughClosing_cons (by simp [hp]) (by simp [hp]), ih h, Option.map_map]
    rfl

/-- Counting goes over balanced kinds and is where it was. -/
theorem throughClosing_balanced {ks : List TokenKind} (h : Balanced ks) {ps : List Piece}
    {ms : List TokenKind} (hps : Piece.kinds ps = ks ++ ms) :
    ∃ front rest, ps = front ++ rest ∧ Piece.kinds front = ks ∧ Piece.kinds rest = ms ∧
      ∀ depth, throughClosing depth ps =
        (throughClosing depth rest).map fun (inner, behind) => (front ++ inner, behind) := by
  induction h generalizing ps ms with
  | nil => exact ⟨[], ps, rfl, rfl, hps, fun depth => by simp⟩
  | @plain k ks ho hc _ ih =>
    obtain ⟨blanks, p, qs, rfl, hb, hp, hqs⟩ := Piece.exists_of_kinds_eq_cons hps
    obtain ⟨front, rest, rfl, hf, hr, ht⟩ := ih hqs
    refine ⟨blanks ++ p :: front, rest, by simp, by simp [hb, hp, hf], hr, fun depth => ?_⟩
    rw [throughClosing_blanks hb, throughClosing_cons (by simp [hp, ho]) (by simp [hp, hc]), ht,
      Option.map_map, Option.map_map]
    congr 1
    funext ⟨inner, behind⟩
    simp
  | @nest ks ls _ _ ih₁ ih₂ =>
    obtain ⟨blanks₁, p, qs, rfl, hb₁, hp, hqs⟩ := Piece.exists_of_kinds_eq_cons hps
    -- Counting is one deeper inside the braces, and back behind them.
    have hqs' : Piece.kinds qs = ks ++ (.closeBrace :: (ls ++ ms)) := by
      rw [hqs]
      exact List.append_assoc ks _ ms
    obtain ⟨front₁, rest₁, rfl, hf₁, hr₁, ht₁⟩ := ih₁ hqs'
    obtain ⟨blanks₂, q, rest, rfl, hb₂, hq, hrest⟩ := Piece.exists_of_kinds_eq_cons hr₁
    obtain ⟨front₂, rest₂, rfl, hf₂, hr₂, ht₂⟩ := ih₂ hrest
    refine ⟨blanks₁ ++ p :: front₁ ++ (blanks₂ ++ q :: front₂), rest₂, by simp,
      by simp [hb₁, hp, hf₁, hb₂, hq, hf₂], hr₂, fun depth => ?_⟩
    rw [throughClosing_blanks hb₁, throughClosing_open hp, ht₁, throughClosing_blanks hb₂,
      throughClosing_close hq, ht₂]
    simp only [Option.map_map]
    congr 1
    funext ⟨inner, behind⟩
    simp

/-- Kinds that close so many open braces and one more. -/
inductive Closing : Nat → List TokenKind → Prop
  | last {ks : List TokenKind} : Balanced ks → Closing 0 (ks ++ [.closeBrace])
  | more {depth : Nat} {ks ms : List TokenKind} :
    Balanced ks → Closing depth ms → Closing (depth + 1) (ks ++ .closeBrace :: ms)

theorem Closing.plain {depth : Nat} {k : TokenKind} {ks : List TokenKind} (ho : k ≠ .openBrace)
    (hc : k ≠ .closeBrace) (h : Closing depth ks) : Closing depth (k :: ks) := by
  cases h with
  | last hb => exact .last (.plain ho hc hb)
  | more hb h => exact .more (.plain ho hc hb) h

theorem Closing.opened {depth : Nat} {ks : List TokenKind} (h : Closing (depth + 1) ks) :
    Closing depth (.openBrace :: ks) := by
  cases h with
  | @more _ ks ms hb h =>
    cases h with
    | @last ls hl =>
      have := Closing.last (.nest hb hl)
      simpa using this
    | @more _ ls ns hl h =>
      have := Closing.more (.nest hb hl) h
      simpa using this

theorem closing_of_throughClosing {depth : Nat} {ps inner rest : List Piece}
    (h : throughClosing depth ps = some (inner, rest)) :
    ps = inner ++ rest ∧ Closing depth (Piece.kinds inner) ∧
      ∃ init close, inner = init ++ [close] ∧ close.kind = some .closeBrace := by
  induction ps generalizing depth inner with
  | nil => simp [throughClosing] at h
  | cons p ps ih =>
    -- An opening brace goes one deeper, a closing one comes back or ends, and any other piece
    -- stays.
    by_cases ho : p.kind = some .openBrace
    · rw [throughClosing_open ho] at h
      obtain ⟨⟨inner', rest'⟩, hi, he⟩ := Option.map_eq_some_iff.mp h
      cases he
      obtain ⟨rfl, hc, init, close, rfl, hk⟩ := ih hi
      exact ⟨rfl, by rw [Piece.kinds_cons_some ho]; exact hc.opened, p :: init, close, rfl, hk⟩
    · by_cases hc : p.kind = some .closeBrace
      · cases depth with
        | zero =>
          rw [throughClosing_zero hc] at h
          cases h
          exact ⟨rfl, by rw [Piece.kinds_cons_some hc]; exact .last .nil, [], p, rfl, hc⟩
        | succ depth =>
          rw [throughClosing_close hc] at h
          obtain ⟨⟨inner', rest'⟩, hi, he⟩ := Option.map_eq_some_iff.mp h
          cases he
          obtain ⟨rfl, hcl, init, close, rfl, hk⟩ := ih hi
          exact ⟨rfl, by rw [Piece.kinds_cons_some hc]; exact .more .nil hcl, p :: init, close, rfl,
            hk⟩
      · rw [throughClosing_cons ho hc] at h
        obtain ⟨⟨inner', rest'⟩, hi, he⟩ := Option.map_eq_some_iff.mp h
        cases he
        obtain ⟨rfl, hcl, init, close, rfl, hclose⟩ := ih hi
        refine ⟨rfl, ?_, p :: init, close, rfl, hclose⟩
        cases hk : p.kind with
        | none => rwa [Piece.kinds_cons_none hk]
        | some k =>
          rw [Piece.kinds_cons_some hk]
          exact hcl.plain (fun h => ho (h ▸ hk)) (fun h => hc (h ▸ hk))

/-! ## 4. The leading block -/

/-- The pieces of a leading block are found by their kinds. -/
theorem leadingBlock_of_kinds {ps : List Piece} {before block behind : List TokenKind}
    (hps : Piece.kinds ps = before ++ block ++ behind) (hb : ∀ k ∈ before, k.isTerminator)
    (h : IsBlock block) :
    ∃ lead text rest, leadingBlock ps = some (lead, text, rest) ∧ Piece.kinds lead = before ∧
      Piece.kinds text = block ∧ Piece.kinds rest = behind := by
  obtain @⟨n, inner, hinner⟩ := h
  have hps' : Piece.kinds ps = before ++ .word "plugins" ::
      (List.replicate n .lineFeed ++ .openBrace :: (inner ++ .closeBrace :: behind)) := by
    rw [hps]
    simp
  -- The kinds are met in turn: the word, line feeds and the brace, what the braces hold, and the
  -- last brace.
  obtain ⟨lead, word, ps₁, hlead, rfl, hlk, hword, hps₁⟩ := Piece.span_eq_of_kinds hps' hb rfl
  obtain ⟨breaks, brace, ps₂, hbreaks, rfl, hbk, hbrace, hps₂⟩ :=
    Piece.span_eq_of_kinds (q := (· == .lineFeed)) hps₁
      (fun k hk => by simp [List.eq_of_mem_replicate hk]) rfl
  obtain ⟨front, ps₃, rfl, hfront, hps₃, hthrough⟩ := throughClosing_balanced hinner hps₂
  obtain ⟨blanks, close, rest, rfl, hblanks, hclose, hrest⟩ := Piece.exists_of_kinds_eq_cons hps₃
  have hblock : blockAt (word :: (breaks ++ brace :: (front ++ (blanks ++ close :: rest)))) =
      some (word :: breaks ++ brace :: (front ++ (blanks ++ [close])), rest) := by
    have hspan : (breaks ++ brace :: (front ++ (blanks ++ close :: rest))).span Piece.isBreak =
        (breaks, brace :: (front ++ (blanks ++ close :: rest))) := hbreaks
    rw [blockAt, if_pos hword, hspan]
    simp only [hbrace, if_true, hthrough, throughClosing_blanks hblanks, throughClosing_zero hclose,
      Option.map_some]
  refine ⟨lead, word :: breaks ++ brace :: (front ++ (blanks ++ [close])), rest, ?_, hlk, ?_, hrest⟩
  · have hspan : (lead ++ word :: (breaks ++ brace :: (front ++ (blanks ++ close :: rest)))).span
        Piece.isFiller =
        (lead, word :: (breaks ++ brace :: (front ++ (blanks ++ close :: rest)))) := hlead
    rw [leadingBlock, hspan]
    simp only [hblock, Option.map_some]
  · simp [hword, hbk, hbrace, hfront, hblanks, hclose]

theorem kinds_takeWhile_isBreak (ps : List Piece) :
    ∃ n, Piece.kinds (ps.takeWhile Piece.isBreak) = List.replicate n .lineFeed := by
  induction ps with
  | nil => exact ⟨0, rfl⟩
  | cons p ps ih =>
    obtain ⟨n, hn⟩ := ih
    rw [List.takeWhile_cons]
    split
    next hp =>
      cases hk : p.kind with
      | none => exact ⟨n, by rw [Piece.kinds_cons_none hk, hn]⟩
      | some k =>
        obtain rfl : k = .lineFeed := by simpa [Piece.isBreak, hk] using hp
        exact ⟨n + 1, by rw [Piece.kinds_cons_some hk, hn, List.replicate_succ]⟩
    next => exact ⟨0, rfl⟩

/-- Pieces that begin with the word of a block and end with a closing brace. -/
def Piece.Bounded (ps : List Piece) : Prop :=
  ∃ word inner close, ps = word :: (inner ++ [close]) ∧ word.kind = some (.word "plugins") ∧
    close.kind = some .closeBrace

theorem isBlock_of_blockAt {ps text rest : List Piece} (h : blockAt ps = some (text, rest)) :
    ps = text ++ rest ∧ IsBlock (Piece.kinds text) ∧ Piece.Bounded text := by
  cases ps with
  | nil => cases h
  | cons word ps =>
    rw [blockAt, List.span_eq_takeWhile_dropWhile] at h
    split at h
    next hword =>
      split at h
      next => cases h
      next breaks brace ps' hspan =>
        obtain ⟨rfl, hdrop⟩ := Prod.mk.inj hspan
        split at h
        next hbrace =>
          obtain ⟨⟨inner, behind⟩, hthrough, he⟩ := Option.map_eq_some_iff.mp h
          cases he
          obtain ⟨rfl, hclosing, init, close, rfl, hclose⟩ := closing_of_throughClosing hthrough
          obtain ⟨n, hn⟩ := kinds_takeWhile_isBreak ps
          refine ⟨?_, ?_, word, ps.takeWhile Piece.isBreak ++ brace :: init, close, by simp, hword,
            hclose⟩
          · have hps := List.takeWhile_append_dropWhile (p := Piece.isBreak) (l := ps)
            rw [hdrop] at hps
            conv_lhs => rw [← hps]
            simp
          · -- At depth zero the kinds are balanced up to their last brace.
            generalize hks : Piece.kinds (init ++ [close]) = ks at hclosing
            cases hclosing with
            | @last ms hms => simpa [hword, hn, hbrace, hks] using IsBlock.intro n hms
        next => cases h
    next => cases h

/-- What the splitter takes for a leading block is one. -/
theorem isBlock_of_leadingBlock {ps lead text rest : List Piece}
    (h : leadingBlock ps = some (lead, text, rest)) :
    ps = lead ++ text ++ rest ∧ (∀ p ∈ lead, p.isFiller) ∧ IsBlock (Piece.kinds text) ∧
      Piece.Bounded text := by
  rw [leadingBlock, List.span_eq_takeWhile_dropWhile] at h
  obtain ⟨⟨text', rest'⟩, hblock, he⟩ := Option.map_eq_some_iff.mp h
  cases he
  obtain ⟨hps, hb, hw⟩ := isBlock_of_blockAt hblock
  refine ⟨?_, fun p hp => List.mem_takeWhile_imp hp, hb, hw⟩
  rw [List.append_assoc, ← hps, List.takeWhile_append_dropWhile]

end ScriptPlugins.Language
