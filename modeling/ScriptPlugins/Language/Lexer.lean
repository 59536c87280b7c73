import ScriptPlugins.Language.Token

/-!
# Lexer — from the text of a script to its pieces and tokens

Spaces, tabs, carriage returns and comments are blank.  Strings stand in single or double quotes
on one line; words start with an ASCII letter or `_` and go on with letters, digits, `_` and `.`.
A text that cannot be read is refused at the line where the piece at fault begins.
-/

namespace ScriptPlugins.Language

/-! ## 1. Refusals -/

/-- Why a text cannot be cut into tokens. -/
inductive LexFault where
  | unexpected (c : Char)
  | unknownEscape (c : Char)
  | unterminatedString
  | unterminatedComment
  deriving DecidableEq, Repr

namespace LexFault

def message : LexFault → String
  | unexpected c => "unexpected character '" ++ c.toString ++ "'"
  | unknownEscape c => "unknown escape sequence '\\" ++ c.toString ++ "'"
  | unterminatedString => "unterminated string literal"
  | unterminatedComment => "unterminated block comment"

end LexFault

/-- A refusal with the line of the piece at fault. -/
structure LexError where
  line : Nat
  fault : LexFault
  deriving DecidableEq, Repr

/-- How an error that belongs to a line is told. -/
def onLine (line : Nat) (message : String) : String := "line " ++ toString line ++ ": " ++ message

def LexError.message (e : LexError) : String := onLine e.line e.fault.message

/-! ## 2. One piece -/

/-- Characters that only separate. -/
def isBlank (c : Char) : Bool := c = ' ' || c = '\t' || c = '\r'

/-- ASCII letters and `_` start a word. -/
def isWordStart (c : Char) : Bool := c.isAlpha || c = '_'

/-- A word goes on with letters, digits, `_` and `.`. -/
def isWordPart (c : Char) : Bool := c.isAlphanum || c = '_' || c = '.'

/-- The rest of a block comment, up to and with its end; `none` if it is never closed. -/
def commentRest : List Char → Option (List Char)
  | '*' :: '/' :: _ => some ['*', '/']
  | c :: cs => (commentRest cs).map (c :: ·)
  | [] => none

/-- The character that a backslash and `c` stand for. -/
def unescape : Char → Option Char
  | 'n' => some '\n'
  | 't' => some '\t'
  | '\\' => some '\\'
  | '\'' => some '\''
  | '"' => some '"'
  | _ => none

/-- The rest of a string behind its opening quote: its text up to and with the closing quote, and
the value it stands for.  A string ends on the line where it begins. -/
def stringRest (quote : Char) : List Char → Except LexFault (List Char × List Char)
  | [] => .error .unterminatedString
  | ['\\'] => .error .unterminatedString
  | '\\' :: e :: cs =>
    match unescape e with
    | none => .error (.unknownEscape e)
    | some v => (stringRest quote cs).map fun (text, value) => ('\\' :: e :: text, v :: value)
  | c :: cs =>
    if c = '\n' then .error .unterminatedString
    else if c = quote then .ok ([c], [])
    else (stringRest quote cs).map fun (text, value) => (c :: text, c :: value)

/-- The kind of a token that is one mark. -/
def markKind : Char → Option TokenKind
  | '\n' => some .lineFeed
  | '{' => some .openBrace
  | '}' => some .closeBrace
  | ':' => some .colon
  | '=' => some .equals
  | ';' => some .semicolon
  | _ => none

/-- What follows a slash: a comment, or nothing that can be read. -/
def slashPiece : List Char → Except LexFault Piece
  | '/' :: cs => .ok ⟨'/' :: '/' :: cs.takeWhile (· ≠ '\n'), none⟩
  | '*' :: cs =>
    match commentRest cs with
    | some text => .ok ⟨'/' :: '*' :: text, none⟩
    | none => .error .unterminatedComment
  | _ => .error (.unexpected '/')

/-- The piece that begins with `c`, behind which `cs` stands. -/
def pieceAt (c : Char) (cs : List Char) : Except LexFault Piece :=
  if isBlank c then .ok ⟨[c], none⟩
  else match markKind c with
  | some kind => .ok ⟨[c], some kind⟩
  | none =>
    if c = '/' then slashPiece cs
    else if c = '\'' ∨ c = '"' then
      (stringRest c cs).map fun (text, value) => ⟨c :: text, some (.text (String.ofList value))⟩
    else if isWordStart c then
      let name := c :: cs.takeWhile isWordPart
      .ok ⟨name, some (.word (String.ofList name))⟩
    else .error (.unexpected c)

/-! ## 3. All pieces -/

/-- The pieces of a text whose first character stands on the given line. -/
def piecesFrom (line : Nat) : List Char → Except LexError (List Piece)
  | [] => .ok []
  | c :: cs =>
    match pieceAt c cs with
    | .error fault => .error ⟨line, fault⟩
    | .ok p =>
      -- The first character of the piece is `c`; the others are taken off `cs`.
      (piecesFrom (line + lineFeeds p.text) (cs.drop (p.text.length - 1))).map (p :: ·)
termination_by cs => cs.length
decreasing_by rw [List.length_drop, List.length_cons]; omega

/-- The pieces of a script. -/
def pieces (source : String) : Except LexError (List Piece) := piecesFrom 1 source.toList

/-- The tokens of a script, in order. -/
def tokenize (source : String) : Except LexError (List Token) :=
  (pieces source).map (Piece.tokens .first)

end ScriptPlugins.Language
