import ScriptPlugins.Build.Error
import ScriptPlugins.Script.Basic

/-!
# Owners — which script of a batch may use a name

The names that follow from the id of a script name files, so no two scripts of a batch may share
one.  The first script that uses a name owns it.  A script that needs a name which another one owns
is refused as a whole and owns nothing.
-/

namespace ScriptPlugins

/-- The names that a script uses. -/
def Script.names (s : Script) : List String := [s.className, s.preambleClassName, s.adapterName]

/-- Names with the ids of the scripts that own them. -/
abbrev Owners := List (String × String)

/-- The refusal of a script if one of its names has an owner. -/
def Owners.refusal? (os : Owners) (s : Script) : Option BuildError :=
  s.names.findSome? fun name => (os.lookup name).map (.nameTaken name s.id ·)

/-- The owners with one more script. -/
def Owners.add (os : Owners) (s : Script) : Owners := s.names.map (·, s.id) ++ os

/-- Each script of a batch with its refusal, if it is refused. -/
def Owners.review (os : Owners) : List Script → List (Script × Option BuildError)
  | [] => []
  | s :: ss =>
    match os.refusal? s with
    | some e => (s, some e) :: os.review ss
    | none => (s, none) :: (os.add s).review ss

end ScriptPlugins
