import ScriptPlugins.Job.Basic

/-!
# Scope jobs — making, locking, reusing and releasing scopes

Each of these changes one scope and reports it.
-/

namespace ScriptPlugins.Attempt

/-- A new scope below another one. -/
def newScope (parent : Nat) (name : String) : Attempt ScopeError Nat := do
  let id ← ExceptT.mk (Job.perform (.newScope parent name))
  report (.scopeCreated name parent)
  return id

/-- Locks a scope.  To lock a locked scope is nothing to report. -/
def lockScope (scope : Nat) : Attempt ScopeError Unit := do
  let s ← of ((← scopes).get scope)
  alter id (.lock scope)
  unless s.locked do report (.scopeLocked s.name)

/-- Counts one more use of a scope. -/
def reuseScope (scope : Nat) : Attempt ScopeError Unit := do
  alter id (.reuse scope)
  let s ← of ((← scopes).get scope)
  report (.scopeReused s.name s.reuses)

/-- Releases a scope and those below it, and reports each. -/
def releaseScope (scope : Nat) : Attempt ScopeError Unit := do
  let (names, _) ← of ((← scopes).release scope)
  alter id (.release scope)
  for name in names do report (.scopeReleased name)

end ScriptPlugins.Attempt
