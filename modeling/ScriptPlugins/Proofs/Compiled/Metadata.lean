import ScriptPlugins.Compiled.Metadata
import ScriptPlugins.Proofs.Compiled.ClassText
import ScriptPlugins.Proofs.Time.Instant

/-!
# Metadata — metadata that was printed is read back
-/

namespace ScriptPlugins

open Json

/-- Metadata that can be read back. -/
structure Metadata.Readable (m : Metadata) : Prop where
  version : m.version ≤ versionLimit
  createdAt : m.createdAt.valid

theorem ClassNotes.ofJson?_toJson (n : ClassNotes) : ofJson? n.toJson = some n := by
  cases n with
  | none => simp [ofJson?, toJson, member?, required, asText]
  | buildScript b =>
    simp [ofJson?, toJson, member?, required, asText, asBool, keepable, sound, depth, depthLimit]

theorem ClassNotes.plain_toJson (n : ClassNotes) : n.toJson.Plain := by
  cases n <;> simp [toJson, Plain, PlainMembers]

theorem Metadata.fields_toJson (m : Metadata) :
    fields ["version", "class_name", "content_hash", "phase", "target_kind", "run_does_something",
      "has_methods", "data", "created_at"] m.toJson =
    some [some (ofNat m.version), some (text m.className), some (text m.contentHash),
      some m.phase.toJson, some m.kind.toJson, some (bool m.runDoesSomething),
      some (bool m.hasMethods), some m.notes.toJson, some (text m.createdAt.write)] := by
  simp [fields, toJson, member?]

theorem Metadata.ofJson?_toJson {m : Metadata} (h : m.Readable) : ofJson? m.toJson = some m := by
  rw [ofJson?, fields_toJson]
  simp only [Option.bind_eq_bind, Option.bind_some, required, asNat_ofNat h.version, asText, asBool,
    Phase.ofJson?_toJson, ScriptKind.ofJson?_toJson, ClassNotes.ofJson?_toJson,
    Instant.read_write h.createdAt]
  rfl

theorem Metadata.plain_toJson (m : Metadata) : m.toJson.Plain :=
  ⟨⟨m.version, rfl⟩, trivial, trivial, trivial, trivial, trivial, trivial, m.notes.plain_toJson,
    trivial, trivial⟩

/-- **Metadata is read back from its file.** -/
theorem Metadata.read_print {m : Metadata} (h : m.Readable) : read m.print = some m := by
  rw [read, print, read_printLaidOut m.plain_toJson]
  exact ofJson?_toJson h

end ScriptPlugins
