import ScriptPlugins.Config.Text
import ScriptPlugins.Job.Basic

/-!
# Finding the configuration — upwards from a directory, then at home

A configuration that is named is read, and must be there.  Otherwise the nearest one in the working
directory or above it counts, then the one of the user.
-/

namespace ScriptPlugins

/-- The variables of the environment with their values. -/
abbrev Environment := List (String × String)

/-- The name of configuration files. -/
def configFileName : String := "prescript.toml"

/-- Where the configuration of a user lies below the home directory. -/
def userConfig : String := ".config/prescript/config.toml"

/-- The home directory of the user. -/
def Environment.home? (env : Environment) : Option Path :=
  ((env.lookup "HOME").filter (· ≠ "")).map Path.mk

/-- The configuration file that counts for a directory. -/
def FileTree.findConfig (t : FileTree) (env : Environment) (start : Path) : Option Path :=
  let near := start.ancestors.map (·.join configFileName)
  let own := env.home?.map (·.join userConfig)
  (near ++ own.toList).find? t.isThere

/-- The configuration in a file. -/
def FileTree.readConfig (t : FileTree) (p : Path) : Except Failure Config :=
  match t.readText p with
  | .error e => .error ⟨"Failed to read config file: " ++ p.text, e.chain⟩
  | .ok s =>
    match Toml.read s >>= Config.ofToml? with
    | none => .error ⟨"Failed to parse config file: " ++ p.text, [Toml.refusal]⟩
    | some c =>
      match c.fault? with
      | some fault => .error ⟨"Invalid config file: " ++ p.text, [fault.message]⟩
      | none => .ok c

/-- The path of the working directory from the root. -/
def FileTree.herePath (t : FileTree) : Path := ⟨"/" ++ Text.joinWith "/" t.here⟩

/-- The configuration that is named, or else the one that is found, if one is. -/
def loadConfig (env : Environment) (named : Option String) : Attempt Failure (Option Config) := do
  let t ← Attempt.files
  match named with
  | some p => return some (← Attempt.of (t.readConfig ⟨p⟩))
  | none =>
    match t.findConfig env t.herePath with
    | none => return none
    | some p =>
      -- Only a configuration that was not named is worth telling.
      Attempt.report (.usingConfig p.text)
      return some (← Attempt.of (t.readConfig p))

end ScriptPlugins
