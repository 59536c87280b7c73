import ScriptPlugins.Log.Event
import ScriptPlugins.Scope.Tree
import ScriptPlugins.Time.Instant

/-!
# Jobs — programs over files and scopes, one operation at a time

A job is a tree of operations: each says what it does to the world and how the job goes on with the
reply.  So the same program can be run to its end, stopped between two operations, or run together
with others that share its world.
-/

namespace ScriptPlugins

/-! ## 1. The world of a job -/

/-- What jobs share: the files, the scopes of a session, the classes directories that wait to be
packaged, what was reported so far, and the clock. -/
structure World where
  files : FileTree
  scopes : ScopeTree
  registered : List Path
  log : List Log.Event
  now : Instant

/-- A change of the files. -/
inductive FileChange where
  | makeDirectories (p : Path)
  | writeFile (p : Path) (bytes : ByteArray)
  /-- The file appears whole or not at all. -/
  | replaceFile (p : Path) (bytes : ByteArray)
  | removeDirectory (p : Path)

/-- The files after a change that is made as a whole, or left as they are. -/
def FileTree.orKeep (t : FileTree) : Except FileError FileTree → Except FileError Unit × FileTree
  | .ok t => (.ok (), t)
  | .error e => (.error e, t)

/-- What a change answers, and the files after it. -/
def FileTree.apply (t : FileTree) : FileChange → Except FileError Unit × FileTree
  | .makeDirectories p => t.makeDirectories p
  | .writeFile p bytes => t.orKeep (t.writeFile p bytes)
  | .replaceFile p bytes => t.orKeep (t.replaceFile p bytes)
  | .removeDirectory p => t.removeDirectory p

/-! ## 2. Operations -/

/-- One operation of a job. -/
inductive Op where
  | observe
  | change (c : FileChange)
  | newScope (parent : Nat) (name : String)
  | alter (c : ScopeTree.Change)
  /-- Begins a new list of registered directories. -/
  | openRegister
  | register (dir : Path)
  | report (e : Log.Event)

/-- What an operation replies. -/
abbrev Op.Reply : Op → Type
  | observe => World
  | change _ => Except FileError Unit
  | newScope _ _ => Except ScopeError Nat
  | alter _ => Except ScopeError Unit
  | openRegister => Unit
  | register _ => Unit
  | report _ => Unit

/-- The reply of an operation, and the world after it. -/
def Op.perform : (op : Op) → World → op.Reply × World
  | observe, w => (w, w)
  | change c, w =>
    let (reply, files) := w.files.apply c
    (reply, { w with files })
  | newScope parent name, w =>
    match w.scopes.newChild parent name with
    | .ok (id, scopes) => (.ok id, { w with scopes })
    | .error e => (.error e, w)
  | alter c, w =>
    match w.scopes.apply c with
    | .ok scopes => (.ok (), { w with scopes })
    | .error e => (.error e, w)
  | openRegister, w => ((), { w with registered := [] })
  | register dir, w => ((), { w with registered := w.registered ++ [dir] })
  | report e, w => ((), { w with log := w.log ++ [e] })

/-! ## 3. Jobs -/

inductive Job (α : Type) where
  | done (a : α)
  | next (op : Op) (rest : op.Reply → Job α)

namespace Job

def bind {α β : Type} : Job α → (α → Job β) → Job β
  | done a, f => f a
  | next op rest, f => next op fun r => (rest r).bind f

instance : Monad Job where
  pure := done
  bind := bind

/-- Runs a job to its end. -/
def run {α : Type} : Job α → World → α × World
  | done a, w => (a, w)
  | next op rest, w =>
    let (reply, w) := op.perform w
    (rest reply).run w

/-- The job of one operation. -/
def perform (op : Op) : Job op.Reply := next op done

@[simp] theorem run_pure {α : Type} (a : α) (w : World) : run (pure a) w = (a, w) := rfl

/-- Jobs run one after the other. -/
@[simp] theorem run_bind {α β : Type} (j : Job α) (f : α → Job β) (w : World) :
    run (j >>= f) w = run (f (j.run w).1) (j.run w).2 := by
  induction j generalizing w with
  | done a => rfl
  | next op rest ih => exact ih _ _

@[simp] theorem run_perform (op : Op) (w : World) : run (perform op) w = op.perform w := rfl

end Job

/-! ## 4. Jobs that may fail -/

/-- A job that answers or says why it failed; what it did before stays done. -/
abbrev Attempt (ε α : Type) := ExceptT ε Job α

namespace Attempt

variable {ε δ α : Type}

/-- The answer that is already known. -/
def of (x : Except ε α) : Attempt ε α := ExceptT.mk (pure x)

/-- An operation that never fails. -/
def perform (op : Op) : Attempt ε op.Reply := ExceptT.lift (Job.perform op)

def observe : Attempt ε World := perform .observe

def files : Attempt ε FileTree := World.files <$> observe

def scopes : Attempt ε ScopeTree := World.scopes <$> observe

def report (e : Log.Event) : Attempt ε PUnit := perform (.report e)

/-- A change of the files, with what a refusal means here. -/
def change (refused : FileError → ε) (c : FileChange) : Attempt ε Unit :=
  ExceptT.mk (Except.mapError refused <$> Job.perform (.change c))

/-- A change of a scope. -/
def alter (refused : ScopeError → ε) (c : ScopeTree.Change) : Attempt ε Unit :=
  ExceptT.mk (Except.mapError refused <$> Job.perform (.alter c))

/-- What failed for one reason fails for the reason that follows from it. -/
def adapt (f : δ → ε) (j : Attempt δ α) : Attempt ε α := ExceptT.adapt f j

/-- Whether a job fails becomes its answer. -/
def outcome (j : Attempt δ α) : Attempt ε (Except δ α) := ExceptT.lift j.run

end Attempt

end ScriptPlugins
