/-!
# Failures — what the program tells when a command does not succeed

A failure is a chain of messages, the outermost first, each caused by the next one.
-/

namespace ScriptPlugins

structure Failure where
  message : String
  causes : List String
  deriving DecidableEq, Repr

namespace Failure

/-- A failure without a cause. -/
def of (message : String) : Failure := ⟨message, []⟩

/-- The failure that a chain of messages tells. -/
def ofChain : List String → Failure
  | [] => of ""
  | message :: causes => ⟨message, causes⟩

/-- The messages of a failure, the outermost first. -/
def messages (f : Failure) : List String := f.message :: f.causes

/-- A failure with what was being tried. -/
def whilst (context : String) (f : Failure) : Failure := ⟨context, f.messages⟩

/-- A text behind a lead, further lines below its beginning. -/
def indented (lead : String) (cause : String) : String :=
  let margin := String.ofList (List.replicate lead.length ' ')
  lead ++ String.ofList (cause.toList.flatMap fun c =>
    if c = '\n' then '\n' :: margin.toList else [c])

/-- The lead of a numbered cause: its number ends in the fifth place. -/
def numberLead (n : Nat) : String :=
  let digits := toString n
  String.ofList (List.replicate (5 - digits.length) ' ') ++ digits ++ ": "

/-- Several causes with their numbers from `n` on. -/
def numbered (n : Nat) : List String → List String
  | [] => []
  | cause :: causes => indented (numberLead n) cause :: numbered (n + 1) causes

/-- The lines of a report on a failure.  A single cause is not numbered. -/
def report (f : Failure) : List String :=
  ("Error: " ++ f.message) ::
    match f.causes with
    | [] => []
    | [cause] => ["", "Caused by:", indented "    " cause]
    | causes => "" :: "Caused by:" :: numbered 0 causes

end Failure

end ScriptPlugins
