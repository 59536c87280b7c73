import ScriptPlugins.Config.Basic
import ScriptPlugins.Json.Record
import ScriptPlugins.Toml.Reader

/-!
# Configuration text — configurations as TOML and as JSON say them

A configuration has four sections, and every key has a default.  In TOML a section may also be an
array of the values of its keys, or a date, which has none of them.  Unknown keys are passed over,
though their values have to be sound.
-/

namespace ScriptPlugins

/-- The greatest number of workers. -/
def workersLimit : Nat := 0xFFFFFFFFFFFFFFFF

namespace Config

/-! ## 1. TOML -/

/-- The values of the keys of a section: of a table, of an array in the order of the keys, or of a
date, which has none of them.  What an array holds beyond the keys is not looked at. -/
def sectionValues (names : List String) : Option Toml → Option (List (Option Toml))
  | none | some .moment => some (names.map fun _ => none)
  | some (.table _ ms) => Toml.Members.select names ms
  | some (.array xs) => some ((List.range names.length).map (xs[·]?))
  | some _ => none

/-- A value with a default. -/
def orDefault {α : Type} (default : α) (decode : Toml → Option α) : Option Toml → Option α
  | none => some default
  | some v => decode v

def tomlText : Toml → Option String
  | .text s => some s
  | _ => none

def tomlTexts : Toml → Option (List String)
  | .array xs => xs.mapM tomlText
  | _ => none

def tomlCount : Toml → Option Nat
  | .integer (.ofNat n) => if n ≤ workersLimit then some n else none
  | _ => none

/-- The configuration that the members of a table say. -/
def ofToml? (ms : Toml.Members) : Option Config := do
  match ← ms.select ["build", "scripts", "compile", "apply"] with
  | [build, scripts, compile, apply] =>
    match ← sectionValues ["dir"] build, ← sectionValues ["dir", "extension"] scripts,
      ← sectionValues ["workers"] compile, ← sectionValues ["known_plugins"] apply with
    | [buildDir], [scriptsDir, extension], [workers], [known] =>
      return {
        buildDir := ← orDefault default.buildDir tomlText buildDir
        scriptsDir := ← orDefault default.scriptsDir tomlText scriptsDir
        extension := ← orDefault default.extension tomlText extension
        workers := ← orDefault default.workers tomlCount workers
        knownPlugins := ← orDefault default.knownPlugins tomlTexts known }
    | _, _, _, _ => none
  | _ => none

/-! ## 2. JSON -/

/-- The fields of a section, which may be left out. -/
def sectionFields (names : List String) : Option Json → Option (List (Option Json))
  | none => some (names.map fun _ => none)
  | some j => Json.fields names j

/-- The configuration that a value says. -/
def ofJson? (j : Json) : Option Config := do
  match ← Json.fields ["build", "scripts", "compile", "apply"] j with
  | [build, scripts, compile, apply] =>
    match ← sectionFields ["dir"] build, ← sectionFields ["dir", "extension"] scripts,
      ← sectionFields ["workers"] compile, ← sectionFields ["known_plugins"] apply with
    | [buildDir], [scriptsDir, extension], [workers], [known] =>
      return {
        buildDir := ← Json.defaulted default.buildDir Json.asText buildDir
        scriptsDir := ← Json.defaulted default.scriptsDir Json.asText scriptsDir
        extension := ← Json.defaulted default.extension Json.asText extension
        workers := ← Json.defaulted default.workers (Json.asNat workersLimit) workers
        knownPlugins := ← Json.defaulted default.knownPlugins (Json.asList Json.asText) known }
    | _, _, _, _ => none
  | _ => none

def toJson (c : Config) : Json :=
  .object [
    ("build", .object [("dir", .text c.buildDir)]),
    ("scripts", .object [("dir", .text c.scriptsDir), ("extension", .text c.extension)]),
    ("compile", .object [("workers", .ofNat c.workers)]),
    ("apply", .object [("known_plugins", .array (c.knownPlugins.map .text))])]

end Config

end ScriptPlugins
