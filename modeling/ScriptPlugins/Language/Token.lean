import ScriptPlugins.Text.Bytes

/-!
# Tokens — the words of a configuration script and where they stand

A script is read as a run of *pieces*: tokens and the blanks and comments between them.  A piece
keeps its own text, so the pieces of a script always spell the script, and the place of a token is
computed from the text before it: its line is one more than the line feeds before it, its span is
counted in UTF-8 bytes.
-/

namespace ScriptPlugins.Language

/-! ## 1. Kinds of tokens -/

/-- What a token is; words and strings carry their value. -/
inductive TokenKind where
  | word (name : String)
  | text (value : String)
  | openBrace
  | closeBrace
  | colon
  | equals
  | semicolon
  | lineFeed
  deriving DecidableEq, Repr

namespace TokenKind

/-- Line feeds and semicolons end a statement. -/
def isTerminator : TokenKind → Bool
  | lineFeed | semicolon => true
  | _ => false

/-- How an error text names a token that stands in the wrong place. -/
def describe : TokenKind → String
  | word name => "'" ++ name ++ "'"
  | text _ => "string"
  | openBrace => "'\x7b'"
  | closeBrace => "'\x7d'"
  | colon => "':'"
  | equals => "'='"
  | semicolon => "';'"
  | lineFeed => "end of line"

end TokenKind

/-- A token with its line, counted from one, and its span in bytes. -/
structure Token where
  kind : TokenKind
  line : Nat
  start : Nat
  stop : Nat
  deriving DecidableEq, Repr

namespace Token

def isTerminator (t : Token) : Bool := t.kind.isTerminator

def isLineFeed (t : Token) : Bool := t.kind == .lineFeed

/-- Whether a token is the given word. -/
def isWord (name : String) (t : Token) : Bool := t.kind == .word name

end Token

/-! ## 2. Pieces of a text -/

/-- One piece of a script: the characters it spans, and its kind unless it is blank. -/
structure Piece where
  text : List Char
  kind : Option TokenKind
  deriving DecidableEq, Repr

namespace Piece

/-- The text that a run of pieces spells. -/
def spell (ps : List Piece) : List Char := ps.flatMap Piece.text

@[simp] theorem spell_nil : spell [] = [] := rfl

@[simp] theorem spell_cons (p : Piece) (ps : List Piece) : spell (p :: ps) = p.text ++ spell ps :=
  rfl

@[simp] theorem spell_append (ps qs : List Piece) : spell (ps ++ qs) = spell ps ++ spell qs := by
  simp [spell]

/-- Blanks, comments and statement ends: what may stand before the first statement. -/
def isFiller (p : Piece) : Bool := p.kind.all TokenKind.isTerminator

/-- Blanks, comments and line feeds: what may stand between `plugins` and its brace. -/
def isBreak (p : Piece) : Bool := p.kind.all (· == .lineFeed)

end Piece

/-- How many line feeds a text holds. -/
def lineFeeds (cs : List Char) : Nat := cs.count '\n'

/-- A place in a text: its line, counted from one, and its offset in bytes. -/
structure Place where
  line : Nat
  offset : Nat
  deriving DecidableEq, Repr

namespace Place

/-- Where a text begins. -/
def first : Place := ⟨1, 0⟩

/-- The place behind some text. -/
def after (p : Place) (cs : List Char) : Place :=
  ⟨p.line + lineFeeds cs, p.offset + Text.byteSize cs⟩

end Place

/-- The tokens of a run of pieces that begins at a given place. -/
def Piece.tokens : Place → List Piece → List Token
  | _, [] => []
  | at_, p :: ps =>
    let behind := at_.after p.text
    match p.kind with
    | none => Piece.tokens behind ps
    | some kind => ⟨kind, at_.line, at_.offset, behind.offset⟩ :: Piece.tokens behind ps

end ScriptPlugins.Language
