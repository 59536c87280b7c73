import ScriptPlugins.Files.Tree

/-!
# File patterns — paths with wildcards, and the files they find

A pattern is split at its slashes.  A segment is a plain name, or a name with wildcards, or `**`,
which stands for directories at any depth.  In a name `?` stands for one character, `*` for any
number of them, and `[…]` for one out of a class.  A class that begins with `!` holds all others.
-/

namespace ScriptPlugins

/-! ## 1. Patterns for names -/

/-- One part of a pattern for names. -/
inductive Wildcard where
  | char (c : Char)
  | any
  | run
  /-- A character that lies in one of the ranges, or in none of them. -/
  | within (inside : Bool) (ranges : List (Char × Char))
  deriving DecidableEq, Repr

namespace Wildcard

/-- The ranges of a class, a single character being a range of its own. -/
def ranges : List Char → List (Char × Char)
  | a :: '-' :: b :: cs => (a, b) :: ranges cs
  | a :: cs => (a, a) :: ranges cs
  | [] => []

/-- A class up to its bracket, and the rest.  Its first character is in it, even a bracket. -/
def closeClass (inside : Bool) (c : Char) (cs : List Char) : Option (Wildcard × List Char) :=
  match cs.dropWhile (· ≠ ']') with
  | [] => none
  | _ :: rest => some (within inside (ranges (c :: cs.takeWhile (· ≠ ']'))), rest)

/-- A class behind its opening bracket, and the rest. -/
def readClass : List Char → Option (Wildcard × List Char)
  | ['!'] => none
  | '!' :: c :: cs => closeClass false c cs
  | c :: cs => closeClass true c cs
  | [] => none

theorem closeClass_length {inside : Bool} {c : Char} {cs rest : List Char} {w : Wildcard}
    (h : closeClass inside c cs = some (w, rest)) : rest.length < cs.length := by
  have hle : (cs.dropWhile (· ≠ ']')).length ≤ cs.length := (List.dropWhile_suffix _).length_le
  unfold closeClass at h
  split at h
  · simp at h
  · rename_i heq
    simp only [Option.some.injEq, Prod.mk.injEq] at h
    rw [heq, List.length_cons, h.2] at hle
    omega

theorem readClass_length {cs rest : List Char} {w : Wildcard}
    (h : readClass cs = some (w, rest)) : rest.length < cs.length := by
  unfold readClass at h
  split at h
  · simp at h
  · have := closeClass_length h; simp only [List.length_cons]; omega
  · have := closeClass_length h; simp only [List.length_cons]; omega
  · simp at h

/-- The parts of a pattern for names; two stars in a row are none. -/
def readAll : List Char → Option (List Wildcard)
  | [] => some []
  | '?' :: cs => (readAll cs).map (any :: ·)
  | '*' :: '*' :: _ => none
  | '*' :: cs => (readAll cs).map (run :: ·)
  | '[' :: cs =>
    match h : readClass cs with
    | none => none
    | some (w, rest) =>
      have := readClass_length h
      (readAll rest).map (w :: ·)
  | c :: cs => (readAll cs).map (char c :: ·)
termination_by cs => cs.length

/-- Whether a part stands for one character. -/
def accepts : Wildcard → Char → Bool
  | char d, c => c = d
  | any, _ => true
  | run, _ => false
  | within inside rs, c => (rs.any fun (lo, hi) => lo ≤ c && c ≤ hi) == inside

/-- For each place, whether something holds there or at a later one. -/
def everLater : List Bool → List Bool
  | [] => []
  | b :: bs =>
    let later := everLater bs
    (b || later.head?.getD false) :: later

/-- Whether a pattern stands for what is left of a name, for each place in it: first the whole name,
last its end.  So a name is gone through once for each part of the pattern. -/
def coversFrom : List Wildcard → List Char → List Bool
  | [], cs => cs.map (fun _ => false) ++ [true]
  | run :: ws, cs => everLater (coversFrom ws cs)
  | w :: ws, cs =>
    List.zipWith (fun c rest => w.accepts c && rest) cs (coversFrom ws cs).tail ++ [false]

/-- Whether a pattern stands for a whole name. -/
def covers (ws : List Wildcard) (cs : List Char) : Bool := (coversFrom ws cs).head?.getD false

theorem everLater_length (bs : List Bool) : (everLater bs).length = bs.length := by
  induction bs with
  | nil => rfl
  | cons b bs ih => simp [everLater, ih]

theorem coversFrom_length (ws : List Wildcard) (cs : List Char) :
    (coversFrom ws cs).length = cs.length + 1 := by
  induction ws with
  | nil => simp [coversFrom]
  | cons w ws ih => cases w <;> simp [coversFrom, everLater_length, ih]

theorem everLater_tail (bs : List Bool) : (everLater bs).tail = everLater bs.tail := by
  cases bs <;> rfl

/-- What holds from the second place on does not depend on the first character. -/
theorem coversFrom_tail (ws : List Wildcard) (c : Char) (cs : List Char) :
    (coversFrom ws (c :: cs)).tail = coversFrom ws cs := by
  induction ws with
  | nil => simp [coversFrom]
  | cons w ws ih =>
    have hlen := coversFrom_length ws cs
    cases w with
    | run => simp [coversFrom, everLater_tail, ih]
    | _ => cases h : coversFrom ws cs <;> simp_all [coversFrom]

/-- The empty pattern stands for the empty name alone. -/
theorem covers_nil (cs : List Char) : covers [] cs = cs.isEmpty := by
  cases cs <;> simp [covers, coversFrom]

/-- A star stands for nothing, or for a character and what another star stands for. -/
theorem covers_run_nil (ws : List Wildcard) : covers (run :: ws) [] = covers ws [] := by
  have hlen := coversFrom_length ws []
  cases h : coversFrom ws [] with
  | nil => simp_all
  | cons b bs => cases bs <;> simp_all [covers, coversFrom, everLater]

theorem covers_run_cons (ws : List Wildcard) (c : Char) (cs : List Char) :
    covers (run :: ws) (c :: cs) = (covers ws (c :: cs) || covers (run :: ws) cs) := by
  have htail := coversFrom_tail ws c cs
  cases h : coversFrom ws (c :: cs) <;> simp_all [covers, coversFrom, everLater]

/-- Any other part stands for exactly one character. -/
theorem covers_cons_nil {w : Wildcard} (ws : List Wildcard) (h : w ≠ run) :
    covers (w :: ws) [] = false := by
  cases w <;> simp_all [covers, coversFrom]

theorem covers_cons_cons {w : Wildcard} (ws : List Wildcard) (c : Char) (cs : List Char)
    (h : w ≠ run) : covers (w :: ws) (c :: cs) = (w.accepts c && covers ws cs) := by
  have htail := coversFrom_tail ws c cs
  have hlen := coversFrom_length ws cs
  cases hcs : coversFrom ws cs <;> cases w <;> simp_all [covers, coversFrom]

/-- The name that a pattern without wildcards stands for. -/
def plain? : List Wildcard → Option (List Char)
  | [] => some []
  | char c :: ws => (plain? ws).map (c :: ·)
  | _ :: _ => none

end Wildcard

/-! ## 2. Patterns for paths -/

/-- What stands between two slashes of a pattern. -/
inductive Segment where
  | plain (name : String)
  | wild (parts : List Wildcard)
  | anyDepth
  deriving DecidableEq, Repr

/-- The segment of a text; two stars must stand alone. -/
def Segment.ofText? (cs : List Char) : Option Segment :=
  if cs = ['*', '*'] then some .anyDepth
  else do
    let parts ← Wildcard.readAll cs
    match Wildcard.plain? parts with
    | some name => some (.plain (String.ofList name))
    | none => some (.wild parts)

/-- Whether a segment stands for a name. -/
def Segment.covers : Segment → String → Bool
  | plain name, s => s = name
  | wild parts, s => Wildcard.covers parts s.toList
  | anyDepth, _ => true

/-- A pattern for paths.  Its path begins at the root or at the working directory. -/
structure Pattern where
  start : Path
  segments : List Segment
  /-- Whether it ends in a slash, so that it finds directories only. -/
  directoriesOnly : Bool

/-- The pattern that a text says. -/
def Pattern.ofText? (s : String) : Option Pattern := do
  let cs := s.toList
  let rooted := cs.head? = some '/'
  let slashed := cs.getLast? = some '/'
  let parts := Text.splitOn (· = '/') (if rooted then cs.tail else cs)
  let segments ← (if slashed then parts.dropLast else parts).mapM Segment.ofText?
  return ⟨⟨if rooted then "/" else "."⟩, segments, slashed⟩

/-! ## 3. Finding files -/

/-- Whether a path names the working directory by a point. -/
def Path.isHere (p : Path) : Bool := p.components = [.here]

/-- The path of a name in a directory; the working directory is not named. -/
def Path.child (p : Path) (name : String) : Path := if p.isHere then ⟨name⟩ else p.join name

/-- All that lies in a directory at any depth, with its name. -/
def FileTree.descendants (t : FileTree) (p : Path) : List (Path × String) :=
  match t.locate p with
  | .error _ => []
  | .ok l =>
    if t.entry? l = some .directory then
      (t.below l).map fun (names, _) => (names.foldl Path.child p, names.getLast?.getD "")
    else []

/-- All that lies directly in a directory, with its name. -/
def FileTree.contents (t : FileTree) (p : Path) : List (Path × String) :=
  match t.list p with
  | .error _ => []
  | .ok entries => entries.map fun (name, _) => (p.child name, name)

/-- The names of the directory itself and the one above it, which a pattern finds only if it begins
with a point. -/
def specialNames : List Wildcard → List String
  | .char '.' :: ws =>
    [".", ".."].filter fun s => Wildcard.covers (.char '.' :: ws) s.toList
  | _ => []

mutual

/-- The paths that segments find from a path on. -/
def FileTree.find (t : FileTree) : List Segment → Path → List Path
  | [], p => [p]
  | .plain name :: rest, p =>
    let q := p.child name
    -- Every directory has `.` and `..`, so it is the directory that has to be there.
    let isThere := if name = "." ∨ name = ".." then t.isDirectory p else t.isThere q
    if isThere then t.find rest q else []
  | .wild parts :: rest, p =>
    if t.isDirectory p then
      let named := (t.contents p).filterMap fun (q, name) =>
        if Wildcard.covers parts name.toList then some q else none
      let special := (specialNames parts).map p.join
      (named ++ special).flatMap fun q => t.find rest q
    else []
  | .anyDepth :: rest, p => (t.descendants p).flatMap fun (q, name) => t.findNamed rest q name

/-- The paths that segments find if the first of them stands for a name. -/
def FileTree.findNamed (t : FileTree) : List Segment → Path → String → List Path
  | [], q, _ => if t.isDirectory q then [q] else []
  -- Several `**` in a row are one.
  | .anyDepth :: rest, q, name => t.findNamed rest q name
  | segment :: rest, q, name => if segment.covers name then t.find rest q else []

end

/-- The paths that a pattern finds. -/
def Pattern.find (p : Pattern) (t : FileTree) : List Path :=
  let found := t.find p.segments p.start
  if p.directoriesOnly then found.filter t.isDirectory else found

end ScriptPlugins
