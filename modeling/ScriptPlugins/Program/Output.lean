import ScriptPlugins.CommandLine.Request
import ScriptPlugins.Program.Failure

/-!
# Program output — what a run of the program tells
-/

namespace ScriptPlugins.Program

/-- What a command prints, what it tells beside that, and its failure if it fails. -/
structure Output where
  lines : List String
  notices : List String
  failure : Option Failure
  deriving DecidableEq, Repr

/-- A command that fails before it has printed anything. -/
def Output.failed (f : Failure) : Output := ⟨[], [], some f⟩

def Output.code (o : Output) : Nat := if o.failure.isSome then 1 else 0

/-- What is printed, each line with its end. -/
def Output.printed (o : Output) : String := String.join (o.lines.map (· ++ "\n"))

/-- How a run of the program ends. -/
inductive Outcome where
  | refused (r : CommandLine.Refusal)
  | done (o : Output)
  deriving DecidableEq, Repr

/-- What stands in front of the lines that the program has to say about itself. -/
def lead : String := "[prescript]"

end ScriptPlugins.Program
