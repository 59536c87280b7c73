import ScriptPlugins.Compiled.Class
import ScriptPlugins.Digest.Sha256
import ScriptPlugins.Files.Path
import ScriptPlugins.Language.Split

/-!
# Scripts — a source, its identity, and the names that follow from it

A script is known by its id and kind.  From the id follow the names of its two compiled classes and
of its adapter; all three are identifiers, so that they can name files and directories.
-/

namespace ScriptPlugins

structure Script where
  id : String
  kind : ScriptKind
  source : String
  path : Option Path
  deriving DecidableEq, Repr

/-! ## 1. Names -/

/-- Letters and digits of ASCII. -/
def isAsciiAlphanumeric (c : Char) : Bool := c.isAlphanum

/-- A name that does not begin with a digit: if it would, it gets a `_` in front. -/
def leadSafely (cs : List Char) : List Char :=
  if (cs.head?.map Char.isDigit).getD false then '_' :: cs else cs

/-- The identifier for an id: everything else than letters, digits and `_` becomes `_`. -/
def identifier (id : String) : String :=
  String.ofList <| leadSafely <|
    id.toList.map fun c => if isAsciiAlphanumeric c ∨ c = '_' then c else '_'

/-- A word with a capital. -/
def capitalize : List Char → List Char
  | [] => []
  | c :: cs => c.toUpper :: cs

namespace Script

variable (s : Script)

/-- The name of the class of the body. -/
def className : String := "precompiled_" ++ identifier s.id

/-- The name of the class of the preamble. -/
def preambleClassName : String := "cp_precompiled_" ++ identifier s.id

/-- The name of the adapter: the words of the id with capitals, run together. -/
def adapterName : String :=
  let words := Text.splitOn (!isAsciiAlphanumeric ·) s.id.toList
  String.ofList (leadSafely (words.flatMap capitalize)) ++ "Plugin"

def classNameOf : Phase → String
  | .preamble => s.preambleClassName
  | .body => s.className

/-! ## 2. Sources -/

/-- The part of the source that a phase compiles. -/
def sourceOf : Phase → String
  | .preamble => (Language.split s.source).preamble
  | .body => (Language.split s.source).body

def hasPreamble : Bool := s.sourceOf .preamble ≠ ""

/-- The digest of the whole source. -/
def contentHash : String := Sha256.digestText s.source

/-- How a script is told: its id, and where it comes from. -/
def displayName : String :=
  match s.path with
  | some p => s.id ++ " (" ++ p.text ++ ")"
  | none => s.id

end Script

end ScriptPlugins
