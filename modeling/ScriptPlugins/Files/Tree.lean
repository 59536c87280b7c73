import Std.Data.ExtTreeMap
import ScriptPlugins.Files.Error
import ScriptPlugins.Files.Path

/-!
# File trees — directories, files, and what a program may do to them

A tree maps locations, lists of names from the root, to what stands there.  Two trees with the same
entries are equal.  Each operation answers with the reason if it is refused; a refused operation
leaves the tree alone, except that making directories may get part of the way.
-/

namespace ScriptPlugins

/-! ## 1. Trees and locations -/

/-- The names that lead from the root to an entry. -/
abbrev Location := List String

inductive Entry where
  | file (bytes : ByteArray)
  | directory

instance : DecidableEq Entry
  | .directory, .directory => isTrue rfl
  | .file a, .file b =>
    match ByteArray.instDecidableEq a b with
    | isTrue h => isTrue (congrArg Entry.file h)
    | isFalse h => isFalse fun e => h (Entry.file.inj e)
  | .file _, .directory => isFalse Entry.noConfusion
  | .directory, .file _ => isFalse Entry.noConfusion

/-- The entries below the root, and the directory from which relative paths are walked. -/
structure FileTree where
  entries : Std.ExtTreeMap Location Entry
  here : Location

namespace FileTree

/-- A tree that holds no more than its working directory. -/
def empty (here : Location) : FileTree :=
  ⟨(List.range here.length).foldl (fun m n => m.insert (here.take (n + 1)) .directory) ∅, here⟩

/-- What stands at a location; the root is a directory. -/
def entry? (t : FileTree) (l : Location) : Option Entry :=
  if l = [] then some .directory else t.entries[l]?

def put (t : FileTree) (l : Location) (e : Entry) : FileTree :=
  { t with entries := t.entries.insert l e }

def erase (t : FileTree) (l : Location) : FileTree := { t with entries := t.entries.erase l }

/-- The tree without everything below a location. -/
def eraseBelow (t : FileTree) (l : Location) : FileTree :=
  { t with entries := t.entries.filter fun m _ => !(l.isPrefixOf m && l ≠ m) }

/-- Everything below a location, each with its names from there, in the order of its names. -/
def below (t : FileTree) (l : Location) : List (Location × Entry) :=
  t.entries.toList.filterMap fun (m, e) =>
    if l.isPrefixOf m && l ≠ m then some (m.drop l.length, e) else none

/-- What stands directly in a directory, in the order of its names. -/
def children (t : FileTree) (l : Location) : List (String × Entry) :=
  (t.below l).filterMap fun (m, e) =>
    match m with
    | [name] => some (name, e)
    | _ => none

/-! ## 2. From paths to locations -/

/-- The most bytes that a name can have. -/
def nameLimit : Nat := 255

/-- The most bytes that a path can have. -/
def pathLimit : Nat := 4095

/-- Refuses what is no directory. -/
def enter (t : FileTree) (l : Location) : Except FileError Unit :=
  match t.entry? l with
  | some .directory => .ok ()
  | some (.file _) => .error .notADirectory
  | none => .error .notFound

/-- The location that components lead to.  Each of them is looked up in a directory, but nothing
needs to stand at the last one. -/
def walk (t : FileTree) (l : Location) : List Component → Except FileError Location
  | [] => .ok l
  | c :: cs => do
    t.enter l
    match c with
    | .root => t.walk [] cs
    | .here => t.walk l cs
    | .up => t.walk l.dropLast cs
    | .name s => if nameLimit < s.utf8ByteSize then .error .nameTooLong else t.walk (l ++ [s]) cs

/-- Refuses texts that can be no paths. -/
def checkText (p : Path) : Except FileError Unit :=
  if '\x00' ∈ p.text.toList then .error .nulInName
  else if p.text = "" then .error .notFound
  else if pathLimit < p.text.utf8ByteSize then .error .nameTooLong
  else .ok ()

/-- Where something is made or removed: a slash at the end does not count. -/
def place (t : FileTree) (p : Path) : Except FileError Location := do
  checkText p
  t.walk t.here p.steps

/-- Where something is looked for: what stands before a slash at the end is a directory. -/
def locate (t : FileTree) (p : Path) : Except FileError Location := do
  checkText p
  t.walk t.here (if p.endsInSlash then p.steps ++ [.here] else p.steps)

/-! ## 3. Looking -/

/-- What stands at a path. -/
def look (t : FileTree) (p : Path) : Except FileError Entry := do
  match t.entry? (← t.locate p) with
  | some e => .ok e
  | none => .error .notFound

def isThere (t : FileTree) (p : Path) : Bool := (t.look p).isOk

def isDirectory (t : FileTree) (p : Path) : Bool :=
  match t.look p with
  | .ok .directory => true
  | _ => false

def isFile (t : FileTree) (p : Path) : Bool :=
  match t.look p with
  | .ok (.file _) => true
  | _ => false

def readBytes (t : FileTree) (p : Path) : Except FileError ByteArray := do
  match ← t.look p with
  | .file bytes => .ok bytes
  | .directory => .error .isADirectory

/-- The text of a file. -/
def readText (t : FileTree) (p : Path) : Except FileError String := do
  match String.fromUTF8? (← t.readBytes p) with
  | some s => .ok s
  | none => .error .notUnicode

/-- What stands directly in the directory at a path.  A directory hands out its names in an order of
its own, the greatest one first; who needs another order has to sort. -/
def list (t : FileTree) (p : Path) : Except FileError (List (String × Entry)) := do
  let l ← t.locate p
  t.enter l
  return (t.children l).reverse

/-! ## 4. Changes -/

/-- Makes one directory. -/
def makeDirectory (t : FileTree) (p : Path) : Except FileError FileTree := do
  let l ← t.place p
  match t.entry? l with
  | some _ => .error .alreadyExists
  | none => .ok (t.put l .directory)

/-- Makes the first of some directories, each of which lies in the next one. -/
def makeFirst : List Path → FileTree → Except FileError Unit × FileTree
  | [], t => (.error .notFound, t)
  | p :: above, t =>
    if p.text = "" then (.ok (), t)
    else
      let orThere (e : FileError) (t : FileTree) : Except FileError Unit × FileTree :=
        if t.isDirectory p then (.ok (), t) else (.error e, t)
      match t.makeDirectory p with
      | .ok t => (.ok (), t)
      | .error .notFound =>
        -- What is made above stays, even if this directory cannot be made.
        match makeFirst above t with
        | (.ok (), t) =>
          match t.makeDirectory p with
          | .ok t => (.ok (), t)
          | .error e => orThere e t
        | refused => refused
      | .error e => orThere e t

/-- Makes a directory and those above it, as far as they are missing. -/
def makeDirectories (t : FileTree) (p : Path) : Except FileError Unit × FileTree :=
  makeFirst p.ancestors t

/-- Writes a file, in place of one that is there.  A path that ends in a slash names a directory,
whatever stands there. -/
def writeFile (t : FileTree) (p : Path) (bytes : ByteArray) : Except FileError FileTree := do
  if p.endsInSlash then
    checkText p
    t.enter (← t.walk t.here p.steps.dropLast)
    .error .isADirectory
  else
    let l ← t.place p
    match t.entry? l with
    | some .directory => .error .isADirectory
    | _ => .ok (t.put l (.file bytes))

/-- Puts a file that is complete in place of one that may be there.  A name that can be no path is
refused as an invalid argument. -/
def replaceFile (t : FileTree) (p : Path) (bytes : ByteArray) : Except FileError FileTree :=
  if '\x00' ∈ p.text.toList then .error .invalidArgument else t.writeFile p bytes

/-- Removes a directory with everything below it.  A path that ends in `.` or `..` cannot name the
directory for its removal: only what is below it goes.  That is refused unless the path led through
what is gone, since nothing is left to be removed then. -/
def removeDirectory (t : FileTree) (p : Path) : Except FileError Unit × FileTree :=
  match t.locate p with
  | .error e => (.error e, t)
  | .ok l =>
    match t.enter l with
    | .error e => (.error e, t)
    | .ok () =>
      -- The contents go first, so a path that leads through them and back up leads nowhere now.
      let t := t.eraseBelow l
      match t.place p with
      | .error .notFound => (.ok (), t)
      | .error e => (.error e, t)
      | .ok l =>
        match p.steps.getLast? with
        | some .here => (.error .invalidArgument, t)
        | some .up => (.error .notEmpty, t)
        | _ => (.ok (), t.erase l)

/-- Removes one file. -/
def removeFile (t : FileTree) (p : Path) : Except FileError FileTree := do
  let l ← t.locate p
  match t.entry? l with
  | some (.file _) => .ok (t.erase l)
  | some .directory => .error .isADirectory
  | none => .error .notFound

end FileTree

end ScriptPlugins
