import ScriptPlugins.Language.Lexer

/-!
# Split — the plugin-request preamble of a script and its body

The preamble is a plugins block that stands before every other statement.  Both halves keep the
lines of the script: the preamble is led by as many line feeds as stand before the block, and in
the body the block is blanked out, character by character, with its line feeds kept.
-/

namespace ScriptPlugins.Language

/-- The two halves of a script; the preamble is empty if there is no leading block. -/
structure Halves where
  preamble : String
  body : String
  deriving DecidableEq, Repr

/-- The pieces up to the brace that closes `depth + 1` open ones, and the pieces behind it. -/
def throughClosing : Nat → List Piece → Option (List Piece × List Piece)
  | _, [] => none
  | depth, p :: ps =>
    let through (r : Option (List Piece × List Piece)) :=
      r.map fun (inner, rest) => (p :: inner, rest)
    match p.kind, depth with
    | some .closeBrace, 0 => some ([p], ps)
    | some .closeBrace, depth + 1 => through (throughClosing depth ps)
    | some .openBrace, depth => through (throughClosing (depth + 1) ps)
    | _, depth => through (throughClosing depth ps)

/-- The pieces of a plugins block that begins here, from its word to its matching brace, and the
pieces behind it. -/
def blockAt : List Piece → Option (List Piece × List Piece)
  | [] => none
  | word :: ps =>
    if word.kind = some (.word "plugins") then
      match ps.span Piece.isBreak with
      | (_, []) => none
      | (breaks, brace :: ps) =>
        if brace.kind = some .openBrace then
          (throughClosing 0 ps).map fun (inner, rest) => (word :: breaks ++ brace :: inner, rest)
        else none
    else none

/-- The pieces before the leading plugins block, of the block, and behind it. -/
def leadingBlock (ps : List Piece) : Option (List Piece × List Piece × List Piece) :=
  let (before, rest) := ps.span Piece.isFiller
  (blockAt rest).map fun (block, behind) => (before, block, behind)

/-- A text with every character blanked out but its line feeds. -/
def blankOut (cs : List Char) : List Char := cs.map fun c => if c = '\n' then '\n' else ' '

/-- Splits a script.  A text that cannot be cut into tokens stays whole, so that its error is told
for the whole body. -/
def split (source : String) : Halves :=
  match pieces source with
  | .error _ => ⟨"", source⟩
  | .ok ps =>
    match leadingBlock ps with
    | none => ⟨"", source⟩
    | some (before, block, behind) =>
      -- Blanking the block keeps its line feeds, so the lines of what follows stay the same.
      let lead := Piece.spell before
      let text := Piece.spell block
      ⟨String.ofList (List.replicate (lineFeeds lead) '\n' ++ text),
       String.ofList (lead ++ blankOut text ++ Piece.spell behind)⟩

end ScriptPlugins.Language
