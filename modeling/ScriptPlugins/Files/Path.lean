import ScriptPlugins.Text.Affix

/-!
# Paths — the texts that name files

A path keeps its text, which is what people are told.  What it means is a list of components:
`/` at the start, `.`, `..`, and names.  Repeated slashes and a `.` behind the first component
change nothing but the text.
-/

namespace ScriptPlugins

/-! ## 1. Components -/

/-- One component of a path. -/
inductive Component where
  | root
  | here
  | up
  | name (s : String)
  deriving DecidableEq, Repr

structure Path where
  text : String
  deriving DecidableEq, Repr, Inhabited

namespace Path

def ofPart (part : List Char) : Component :=
  if part = ['.'] then .here
  else if part = ['.', '.'] then .up
  else .name (String.ofList part)

/-- The components of a path in the order in which they are walked. -/
def steps (p : Path) : List Component :=
  let cs := p.text.toList
  let rest := (Text.splitOn (· = '/') cs).filter (· ≠ []) |>.map ofPart
  if cs.head? = some '/' then .root :: rest else rest

/-- Whether a path ends in a slash. -/
def endsInSlash (p : Path) : Bool := p.text.toList.getLast? = some '/'

/-- The components that tell paths apart: a `.` counts only as the first one. -/
def components (p : Path) : List Component :=
  match p.steps with
  | [] => []
  | c :: cs => c :: cs.filter (· ≠ .here)

/-- How components are ordered: roots, `.`, `..`, then names. -/
def Component.rank : Component → Nat × String
  | .root => (0, "")
  | .here => (1, "")
  | .up => (2, "")
  | .name s => (3, s)

/-- Paths are ordered component by component. -/
def compareComponents : List Component → List Component → Ordering
  | [], [] => .eq
  | [], _ :: _ => .lt
  | _ :: _, [] => .gt
  | a :: as, b :: bs =>
    let (m, s) := Component.rank a
    let (n, t) := Component.rank b
    ((compare m n).then (compare s t)).then (compareComponents as bs)

def precedes (p q : Path) : Bool := (compareComponents p.components q.components).isLE

/-! ## 2. Putting paths together and taking them apart -/

/-- A path below another one; a path that begins with `/` stands for itself. -/
def join (p : Path) (s : String) : Path :=
  if s.toList.head? = some '/' then ⟨s⟩
  else if p.text = "" ∨ p.endsInSlash then ⟨p.text ++ s⟩
  else ⟨p.text ++ "/" ++ s⟩

/-- Whether a part between slashes is a component; the part is given with whether it is the first
one of a path that does not begin with a slash. -/
def counts (first : Bool) (part : List Char) : Bool := part ≠ [] ∧ (first ∨ part ≠ ['.'])

/-- The parts of a path, last one first, without those at its end that are no components. -/
def trimParts : List (List Char) → List (List Char)
  | [] => []
  | [part] => if counts true part then [part] else []
  | part :: parts => if counts false part then part :: parts else trimParts parts

/-- The parent of a path; the root and the empty path have none. -/
def parent? (p : Path) : Option Path :=
  let cs := p.text.toList
  let rebuild (parts : List (List Char)) : String :=
    Text.joinWith "/" (parts.reverse.map String.ofList)
  match cs with
  | '/' :: cs =>
    match trimParts ((Text.splitOn (· = '/') cs).reverse) with
    | [] => none
    | _ :: parts => some ⟨"/" ++ rebuild (trimRooted parts)⟩
  | cs =>
    match trimParts ((Text.splitOn (· = '/') cs).reverse) with
    | [] => none
    | _ :: parts => some ⟨rebuild (trimParts parts)⟩
where
  trimRooted (parts : List (List Char)) : List (List Char) := parts.dropWhile (!counts false ·)

/-- A path and those above it, nearest first. -/
def ancestors (p : Path) : List Path := go p.text.length p
where
  go : Nat → Path → List Path
    | 0, p => [p]
    | fuel + 1, p =>
      match p.parent? with
      | none => [p]
      | some q => p :: go fuel q

/-- The name that a path ends in, if it ends in one. -/
def fileName? (p : Path) : Option String :=
  match p.components.getLast? with
  | some (.name s) => some s
  | _ => none

/-- The extension of a name: what stands behind its last point, if the name does not begin there. -/
def extensionOf? (name : String) : Option String :=
  let cs := name.toList
  let after := (cs.reverse.takeWhile (· ≠ '.')).reverse
  if after.length + 1 < cs.length then some (String.ofList after) else none

end Path

end ScriptPlugins
