import ScriptPlugins.Compile.Error
import ScriptPlugins.Compiled.Class

/-!
# Lowering — from the source of a phase to its steps

Every plugin request becomes a step and no id may be requested twice.  A preamble consists of
requests alone.  Whether a body may hold requests is for its hook to say.
-/

namespace ScriptPlugins

open ScriptPlugins.Language

/-- What is checked of each step once a phase is known to be well formed. -/
inductive Hook where
  | noop
  /-- Plugins may be requested in the leading block only. -/
  | bodyVerifier
  deriving DecidableEq, Repr

/-- The hook that goes with a phase. -/
def Phase.hook : Phase → Hook
  | .preamble => .noop
  | .body => .bodyVerifier

/-- Whether a hook accepts a step. -/
def Hook.accepts (h : Hook) (s : Step) : Bool := h = .noop ∨ ¬s.action.isRequest

/-- The ids requested so far, each with the line of its request. -/
abbrev Requested := List (String × Nat)

/-- The steps of a plugins block. -/
def lowerSpecs (known : Requested) :
    List PluginSpec → Except CompileError (List Step × Requested)
  | [] => .ok ([], known)
  | spec :: specs =>
    match known.lookup spec.id with
    | some line => .error (.syntaxFault spec.line (.requestedBefore spec.id line))
    | none => do
      let (steps, known) ← lowerSpecs ((spec.id, spec.line) :: known) specs
      return (⟨spec.line, .requestPlugin ⟨spec.id, spec.version, spec.apply⟩⟩ :: steps, known)

/-- The steps of one statement. -/
def lowerStatement (phase : Phase) (known : Requested) (s : Statement) :
    Except CompileError (List Step × Requested) :=
  match s.form, phase with
  | .plugins specs, _ => lowerSpecs known specs
  | _, .preamble => .error (.syntaxFault s.line .onlyRequests)
  | .println text, .body => .ok ([⟨s.line, .println text⟩], known)
  | .applyPlugin id, .body => .ok ([⟨s.line, .applyPlugin id⟩], known)
  | .setProperty key value, .body => .ok ([⟨s.line, .setProperty key value⟩], known)

/-- The steps of statements, in order. -/
def lower (phase : Phase) (known : Requested) : List Statement → Except CompileError (List Step)
  | [] => .ok []
  | s :: ss => do
    let (steps, known) ← lowerStatement phase known s
    return steps ++ (← lower phase known ss)

/-- The statements of a source. -/
def statementsOf (source : String) : Except CompileError (List Statement) := do
  let tokens ← (tokenize source).mapError fun e => .syntaxFault e.line (.tokens e.fault)
  (parse tokens).mapError fun e => .syntaxFault e.line (.statements e.fault)

/-- The steps of the source of a phase. -/
def stepsOf (phase : Phase) (hook : Hook) (source : String) : Except CompileError (List Step) := do
  let steps ← lower phase [] (← statementsOf source)
  match steps.find? fun s => !hook.accepts s with
  | some s => .error (.rejected s.line)
  | none => .ok steps

end ScriptPlugins
