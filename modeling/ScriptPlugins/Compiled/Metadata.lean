import ScriptPlugins.Compiled.ClassText
import ScriptPlugins.Time.Instant

/-!
# Metadata — what a compiled class was made from, and when

Metadata stands beside a class in the cache.  It names the class, the digest of the script, the
phase and kind it was compiled for, and whether running it does anything.
-/

namespace ScriptPlugins

open Json

/-- What is known of a class beyond its name: of a body, whether it has statements of its own. -/
inductive ClassNotes where
  | none
  | buildScript (hasImperativeStatements : Bool)
  deriving DecidableEq, Repr

structure Metadata where
  version : Nat
  className : String
  contentHash : String
  phase : Phase
  kind : ScriptKind
  runDoesSomething : Bool
  hasMethods : Bool
  notes : ClassNotes
  createdAt : Instant
  deriving DecidableEq, Repr

/-- The version of the metadata that the compiler writes. -/
def metadataVersion : Nat := 1

/-- The file that holds the metadata of a class. -/
def metadataFileName : String := "metadata.json"

/-! ## 1. Notes -/

def ClassNotes.toJson : ClassNotes → Json
  | none => object [("type", text "none")]
  | buildScript b => object [("type", text "build-script"), ("has_imperative_statements", bool b)]

/-- Notes, which stand below one record: an object with a type, or an array that begins with it.
The other members or elements are kept until the type is known, so they have to be sound. -/
def ClassNotes.ofJson? : Json → Option ClassNotes
  | object ms => do
    let type ← required asText (← member? "type" ms)
    let rest := ms.filter (·.1 ≠ "type")
    if rest.all fun (_, j) => j.keepable 2 then
      match type with
      | "none" => return none
      | "build-script" =>
        return buildScript (← required asBool (← member? "has_imperative_statements" rest))
      | _ => Option.none
    else Option.none
  | array (text "none" :: []) => some none
  | array (text "build-script" :: Json.bool b :: []) => some (buildScript b)
  | _ => Option.none

/-! ## 2. Metadata -/

def Metadata.toJson (m : Metadata) : Json :=
  object [("version", ofNat m.version), ("class_name", text m.className),
    ("content_hash", text m.contentHash), ("phase", m.phase.toJson),
    ("target_kind", m.kind.toJson), ("run_does_something", bool m.runDoesSomething),
    ("has_methods", bool m.hasMethods), ("data", m.notes.toJson),
    ("created_at", text m.createdAt.write)]

/-- The greatest version number. -/
def versionLimit : Nat := 0xFFFFFFFF

def Metadata.ofJson? (j : Json) : Option Metadata := do
  match ← fields ["version", "class_name", "content_hash", "phase", "target_kind",
    "run_does_something", "has_methods", "data", "created_at"] j with
  | [version, className, contentHash, phase, kind, runs, methods, notes, createdAt] =>
    return {
      version := ← required (asNat versionLimit) version
      className := ← required asText className
      contentHash := ← required asText contentHash
      phase := ← required Phase.ofJson? phase
      kind := ← required ScriptKind.ofJson? kind
      runDoesSomething := ← required asBool runs
      hasMethods := ← required asBool methods
      notes := ← required ClassNotes.ofJson? notes
      createdAt := ← required asText createdAt >>= Instant.read }
  | _ => none

/-- The text of a metadata file. -/
def Metadata.print (m : Metadata) : String := m.toJson.printLaidOut

/-- The metadata that a text says. -/
def Metadata.read (s : String) : Option Metadata := Json.read s >>= ofJson?

end ScriptPlugins
