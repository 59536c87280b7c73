import ScriptPlugins.Compile.Unit
import ScriptPlugins.Proofs.Compiled.Metadata
import ScriptPlugins.Proofs.Files.Changes
import ScriptPlugins.Proofs.Job.Preserving

/-!
# Compiled files — classes and metadata come back from their files as they went in

What the readers accept fits into the numbers and times that they take, so it can be printed and
read once more.  A text says one class at most, and one class has one text.
-/

namespace ScriptPlugins

open Json Attempt

variable {s : String} {j : Json} {w w' : World} {dir path : Path}

/-! ## 1. What readers accept -/

theorem le_of_asNat {limit n : Nat} (h : asNat limit j = some n) : n ≤ limit := by
  unfold asNat at h
  split at h
  next => exact of_decide_eq_true (Option.filter_eq_some_iff.mp h).2
  next => cases h

theorem required_eq_some {α : Type} {decode : Json → Option α} {x : Option Json} {a : α}
    (h : required decode x = some a) : ∃ y, x = some y ∧ decode y = some a :=
  Option.bind_eq_some_iff.mp h

/-- The line of a step that was read is within the limit. -/
theorem Step.line_of_ofJson? {step : Step} (h : ofJson? j = some step) : step.line ≤ lineLimit := by
  unfold ofJson? at h
  split at h
  next ms =>
    obtain ⟨x, -, h⟩ := Option.bind_eq_some_iff.mp h
    obtain ⟨line, hline, h⟩ := Option.bind_eq_some_iff.mp h
    obtain ⟨y, -, hy⟩ := required_eq_some hline
    dsimp only at h
    split at h
    next =>
      obtain ⟨op, -, h⟩ := Option.bind_eq_some_iff.mp h
      obtain ⟨word, -, h⟩ := Option.bind_eq_some_iff.mp h
      obtain ⟨action, -, h⟩ := Option.bind_eq_some_iff.mp h
      cases h
      exact le_of_asNat hy
    next => cases h
  next => cases h

theorem Step.line_of_mapM {js : List Json} {steps : List Step}
    (h : js.mapM ofJson? = some steps) : ∀ step ∈ steps, step.line ≤ lineLimit := by
  induction js generalizing steps with
  | nil =>
    cases h
    exact fun _ hs => nomatch hs
  | cons j js ih =>
    rw [List.mapM_cons] at h
    obtain ⟨first, hfirst, h⟩ := Option.bind_eq_some_iff.mp h
    obtain ⟨others, hothers, h⟩ := Option.bind_eq_some_iff.mp h
    cases h
    exact List.forall_mem_cons.mpr ⟨line_of_ofJson? hfirst, ih hothers⟩

/-- **A class that was read can be read again.** -/
theorem CompiledClass.readable_of_read {c : CompiledClass} (h : read s = some c) : c.Readable := by
  obtain ⟨j, -, h⟩ := Option.bind_eq_some_iff.mp h
  unfold ofJson? at h
  obtain ⟨fs, -, h⟩ := Option.bind_eq_some_iff.mp h
  split at h
  next =>
    obtain ⟨name, -, h⟩ := Option.bind_eq_some_iff.mp h
    obtain ⟨phase, -, h⟩ := Option.bind_eq_some_iff.mp h
    obtain ⟨kind, -, h⟩ := Option.bind_eq_some_iff.mp h
    obtain ⟨steps, hsteps, h⟩ := Option.bind_eq_some_iff.mp h
    cases h
    obtain ⟨x, -, hx⟩ := required_eq_some hsteps
    unfold asList at hx
    split at hx
    next => exact Step.line_of_mapM hx
    next => cases hx
  next => cases h

/-- **Metadata that was read can be read again.** -/
theorem Metadata.readable_of_read {m : Metadata} (h : read s = some m) : m.Readable := by
  obtain ⟨j, -, h⟩ := Option.bind_eq_some_iff.mp h
  unfold ofJson? at h
  obtain ⟨fs, -, h⟩ := Option.bind_eq_some_iff.mp h
  split at h
  next =>
    obtain ⟨version, hversion, h⟩ := Option.bind_eq_some_iff.mp h
    obtain ⟨className, -, h⟩ := Option.bind_eq_some_iff.mp h
    obtain ⟨contentHash, -, h⟩ := Option.bind_eq_some_iff.mp h
    obtain ⟨phase, -, h⟩ := Option.bind_eq_some_iff.mp h
    obtain ⟨kind, -, h⟩ := Option.bind_eq_some_iff.mp h
    obtain ⟨runs, -, h⟩ := Option.bind_eq_some_iff.mp h
    obtain ⟨methods, -, h⟩ := Option.bind_eq_some_iff.mp h
    obtain ⟨notes, -, h⟩ := Option.bind_eq_some_iff.mp h
    obtain ⟨createdAt, htime, h⟩ := Option.bind_eq_some_iff.mp h
    cases h
    obtain ⟨x, -, hx⟩ := required_eq_some hversion
    obtain ⟨text, -, htext⟩ := Option.bind_eq_some_iff.mp htime
    exact ⟨le_of_asNat hx, Instant.valid_of_read htext⟩
  next => cases h

/-! ## 2. What was written -/

/-- A class that was written is read from the path it was written to. -/
theorem readClass_of_run_writeClass {c : CompiledClass} (hc : c.Readable)
    (h : Job.run (writeClass dir c).run w = (.ok path, w')) : w'.files.readClass path = .ok c := by
  obtain ⟨_, w₁, -, h⟩ := of_run_bind_ok h
  obtain ⟨_, w₂, hwrite, h⟩ := of_run_bind_ok h
  obtain ⟨t, ht, rfl⟩ := of_run_change hwrite
  cases h
  have hlook := FileTree.look_of_writeFile (FileTree.writeFile_of_apply ht)
  simp only [FileTree.readClass, FileTree.readText_of_look hlook, CompiledClass.read_print hc]

/-- Metadata is read from the file that says it. -/
theorem FileTree.readMetadata_of_look {t : FileTree} {m : Metadata} (hm : m.Readable)
    (h : t.look (metadataFile dir) = .ok (.file m.print.toUTF8)) : t.readMetadata dir = .ok m := by
  simp only [readMetadata, readText_of_look h, Metadata.read_print hm]

/-- Metadata that was written is read from the directory it was written to. -/
theorem readMetadata_of_run_writeMetadata {m : Metadata} (hm : m.Readable)
    (h : Job.run (writeMetadata dir m).run w = (.ok (), w')) :
    w'.files.readMetadata dir = .ok m := by
  obtain ⟨_, w₁, -, h⟩ := of_run_bind_ok h
  obtain ⟨t, ht, rfl⟩ := of_run_change h
  exact FileTree.readMetadata_of_look hm
    (FileTree.look_of_writeFile (FileTree.writeFile_of_apply ht))

/-- **Compiled files say what was written.**  A class whose lines are no greater than the reader
allows is read back from its text and from its file, and so is metadata made at an instant that can
be read back.  No two classes share a text, and what is read from any text at all is the same when
it is printed and read once more. -/
theorem compiled_files_read_back :
    (∀ c : CompiledClass, (∀ step ∈ c.steps, step.line ≤ lineLimit) →
      CompiledClass.read c.print = some c ∧
      ∀ dir path w w', Job.run (writeClass dir c).run w = (.ok path, w') →
        w'.files.readClass path = .ok c) ∧
    (∀ m : Metadata, m.version ≤ versionLimit → Instant.read m.createdAt.write = some m.createdAt →
      Metadata.read m.print = some m ∧
      ∀ dir w w', Job.run (writeMetadata dir m).run w = (.ok (), w') →
        w'.files.readMetadata dir = .ok m) ∧
    (∀ c c' : CompiledClass, (∀ step ∈ c.steps, step.line ≤ lineLimit) →
      (∀ step ∈ c'.steps, step.line ≤ lineLimit) → c.print = c'.print → c = c') ∧
    (∀ s c, CompiledClass.read s = some c → CompiledClass.read c.print = some c) ∧
    (∀ s m, Metadata.read s = some m → Metadata.read m.print = some m) := by
  refine ⟨?classes, ?metadata, ?distinct, ?classTexts, ?metadataTexts⟩
  case classes =>
    intro c hc
    exact ⟨CompiledClass.read_print hc, fun _ _ _ _ h => readClass_of_run_writeClass hc h⟩
  case metadata =>
    intro m hversion htime
    have hm : m.Readable := ⟨hversion, Instant.valid_of_read htime⟩
    exact ⟨Metadata.read_print hm, fun _ _ _ h => readMetadata_of_run_writeMetadata hm h⟩
  case distinct =>
    intro c c' hc hc' h
    have hread := CompiledClass.read_print hc
    rw [h, CompiledClass.read_print hc'] at hread
    exact (Option.some.inj hread).symm
  case classTexts =>
    intro s c h
    exact CompiledClass.read_print (CompiledClass.readable_of_read h)
  case metadataTexts =>
    intro s m h
    exact Metadata.read_print (Metadata.readable_of_read h)

end ScriptPlugins
