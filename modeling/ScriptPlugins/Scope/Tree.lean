import ScriptPlugins.Compiled.ClassFile

/-!
# Scope trees — where compiled classes are visible

Scopes form a tree.  A scope sees the classes it exports and those of the scopes above it, the
nearest one first, and never those of its children or siblings.  A locked scope exports nothing
more.  Scopes are numbered in the order in which they are made; a released scope keeps its number
and nothing else.
-/

namespace ScriptPlugins

/-! ## 1. Scopes -/

structure Scope where
  name : String
  parent : Option Nat
  children : List Nat
  classes : Std.ExtTreeMap String CompiledClass
  directories : List Path
  locked : Bool
  reuses : Nat

/-- A scope that exports nothing yet. -/
def Scope.fresh (name : String) (parent : Option Nat) : Scope :=
  ⟨name, parent, [], ∅, [], false, 0⟩

/-- A scope that has one of its children no more. -/
def Scope.withoutChild (s : Scope) (id : Nat) : Scope :=
  { s with children := s.children.filter (· ≠ id) }

/-- The scopes of a session by their numbers; `none` for one that has been released. -/
structure ScopeTree where
  slots : List (Option Scope)

/-- Why a scope refuses. -/
inductive ScopeError where
  | locked (scope : String) (operation : String)
  | released (id : Nat)
  | classNotFound (scope name : String)
  | duplicateClass (scope name : String)
  | classFile (cause : ClassFileError)
  deriving DecidableEq, Repr

namespace ScopeError

def message : ScopeError → String
  | locked scope operation => "Scope '" ++ scope ++ "' is locked, cannot " ++ operation
  | released id => "Scope #" ++ toString id ++ " has been released"
  | classNotFound scope name => "Class '" ++ name ++ "' is not visible from scope '" ++ scope ++ "'"
  | duplicateClass scope name =>
    "Class '" ++ name ++ "' is already exported by scope '" ++ scope ++ "'"
  | classFile cause => cause.message

/-- The messages of an error and of what caused it. -/
def chain : ScopeError → List String
  | classFile cause => cause.chain
  | e => [e.message]

end ScopeError

namespace ScopeTree

/-- A tree that holds only its root. -/
def root (name : String) : ScopeTree := ⟨[some (.fresh name none)]⟩

/-! ## 2. Looking -/

/-- The live scope of that number. -/
def scope? (t : ScopeTree) (id : Nat) : Option Scope := t.slots[id]?.join

theorem scope?_eq_some {t : ScopeTree} {id : Nat} {s : Scope} :
    t.scope? id = some s ↔ t.slots[id]? = some (some s) := by
  rw [scope?]
  cases t.slots[id]? with
  | none => simp
  | some o => simp

def get (t : ScopeTree) (id : Nat) : Except ScopeError Scope :=
  match t.scope? id with
  | some s => .ok s
  | none => .error (.released id)

def isLive (t : ScopeTree) (id : Nat) : Bool := (t.scope? id).isSome

/-- The numbers from a scope up to the root, nearest first.  A parent always has the smaller
number, so the walk ends. -/
def chain (t : ScopeTree) (id : Nat) : Except ScopeError (List Nat) :=
  match t.get id with
  | .error e => .error e
  | .ok s =>
    match s.parent with
    | none => .ok [id]
    | some p => if p < id then (t.chain p).map (id :: ·) else .ok [id]
termination_by id

/-- The scopes from a scope up to the root, nearest first. -/
def above (t : ScopeTree) (id : Nat) : Except ScopeError (List Scope) := do
  (← t.chain id).mapM t.get

/-- The full name of a scope, root first. -/
def path (t : ScopeTree) (id : Nat) : Except ScopeError String := do
  return Text.joinWith ":" ((← t.above id).reverse.map Scope.name)

/-- The class that a name stands for in a scope: that of the nearest scope which exports it. -/
def resolve (t : ScopeTree) (id : Nat) (name : String) : Except ScopeError CompiledClass := do
  let scopes ← t.above id
  match scopes.findSome? fun s => s.classes[name]? with
  | some c => .ok c
  | none => .error (.classNotFound (← t.get id).name name)

/-- All classes that are visible from a scope, in the order of their names. -/
def visible (t : ScopeTree) (id : Nat) :
    Except ScopeError (Std.ExtTreeMap String CompiledClass) := do
  let scopes ← t.above id
  -- From the root down, so that nearer scopes replace what is farther away.
  return scopes.foldr (fun s m => s.classes.foldl (fun m name c => m.insert name c) m) ∅

/-! ## 3. Changes -/

/-- The tree with another scope under a number. -/
def set (t : ScopeTree) (id : Nat) (s : Scope) : ScopeTree := ⟨t.slots.set id (some s)⟩

/-- Changes a live scope. -/
def modify (t : ScopeTree) (id : Nat) (f : Scope → Scope) : Except ScopeError ScopeTree := do
  return t.set id (f (← t.get id))

/-- A new scope below another one, locked or not, and its number. -/
def newChild (t : ScopeTree) (parent : Nat) (name : String) :
    Except ScopeError (Nat × ScopeTree) := do
  let s ← t.get parent
  let id := t.slots.length
  let t := t.set parent { s with children := s.children ++ [id] }
  return (id, ⟨t.slots ++ [some (.fresh name (some parent))]⟩)

/-- Freezes what a scope exports. -/
def lock (t : ScopeTree) (id : Nat) : Except ScopeError ScopeTree :=
  t.modify id fun s => { s with locked := true }

/-- Counts that what a scope exports is used once more without being compiled. -/
def reuse (t : ScopeTree) (id : Nat) : Except ScopeError ScopeTree :=
  t.modify id fun s => { s with reuses := s.reuses + 1 }

/-- The scope of that number, unless it is locked. -/
def unlocked (t : ScopeTree) (id : Nat) (operation : String) : Except ScopeError Scope := do
  let s ← t.get id
  if s.locked then .error (.locked s.name operation) else .ok s

/-- Exports one class. -/
def exportClass (t : ScopeTree) (id : Nat) (c : CompiledClass) : Except ScopeError ScopeTree := do
  let s ← t.unlocked id "export a class"
  if s.classes.contains c.name then .error (.duplicateClass s.name c.name)
  else return t.set id { s with classes := s.classes.insert c.name c }

/-- What exporting a directory is called. -/
def exportingDirectory : String := "export a classes directory"

/-- Exports the classes that were read from a directory, all or none. -/
def exportAll (t : ScopeTree) (id : Nat) (dir : Path) (cs : List CompiledClass) :
    Except ScopeError ScopeTree := do
  let s ← t.unlocked id exportingDirectory
  match cs.find? fun c => s.classes.contains c.name with
  | some c => .error (.duplicateClass s.name c.name)
  | none =>
    return t.set id { s with
      classes := cs.foldl (fun m c => m.insert c.name c) s.classes
      directories := s.directories ++ [dir] }

/-! ## 4. Tearing down -/

/-- How many scopes are live. -/
def liveCount (t : ScopeTree) : Nat := t.slots.countP Option.isSome

/-- The tree without one scope, whose number stays taken. -/
def free (t : ScopeTree) (id : Nat) : ScopeTree := ⟨t.slots.set id none⟩

theorem liveCount_free {t : ScopeTree} {id : Nat} {s : Scope} (h : t.scope? id = some s) :
    (t.free id).liveCount < t.liveCount := by
  have hslot : t.slots[id]? = some (some s) := scope?_eq_some.mp h
  obtain ⟨hlt, hget⟩ := List.getElem?_eq_some_iff.mp hslot
  have hpos : 0 < t.slots.countP Option.isSome :=
    List.countP_pos_iff.mpr ⟨some s, List.mem_of_getElem? hslot, rfl⟩
  unfold liveCount free
  rw [List.countP_set hlt, hget]
  simp only [Option.isSome_some, Option.isSome_none, if_true, Bool.false_eq_true, if_false]
  omega

/-- Frees the live scopes of a stack, one after the other.  The children of each go on top of the
stack, the last of them first.  Answers the names of the scopes in the order in which they go. -/
def tearDown (t : ScopeTree) : List Nat → List String × ScopeTree
  | [] => ([], t)
  | id :: pending =>
    match _h : t.scope? id with
    | none => t.tearDown pending
    | some s =>
      let (names, t) := (t.free id).tearDown (s.children.reverse ++ pending)
      (s.name :: names, t)
termination_by pending => (t.liveCount, pending.length)
decreasing_by
  · exact .right _ (Nat.lt_succ_self _)
  · exact .left _ _ (liveCount_free ‹_›)

/-- The tree in which a scope is no child of its parent any more. -/
def disown (t : ScopeTree) (parent : Option Nat) (id : Nat) : ScopeTree :=
  match parent with
  | none => t
  | some p => ⟨t.slots.modify p (·.map (·.withoutChild id))⟩

/-- Tears down a scope and, child by child, all those below it.  Answers their names. -/
def release (t : ScopeTree) (id : Nat) : Except ScopeError (List String × ScopeTree) := do
  let s ← t.get id
  return (t.disown s.parent id).tearDown [id]

/-! ## 5. Changes as data -/

/-- A change of one scope. -/
inductive Change where
  | lock (id : Nat)
  | reuse (id : Nat)
  | exportClass (id : Nat) (c : CompiledClass)
  | exportAll (id : Nat) (dir : Path) (cs : List CompiledClass)
  | release (id : Nat)

/-- The tree after a change, unless it is refused. -/
def apply (t : ScopeTree) : Change → Except ScopeError ScopeTree
  | .lock id => t.lock id
  | .reuse id => t.reuse id
  | .exportClass id c => t.exportClass id c
  | .exportAll id dir cs => t.exportAll id dir cs
  | .release id => (t.release id).map Prod.snd

end ScopeTree

end ScriptPlugins
