import ScriptPlugins.Proofs.Batch.Independence
import ScriptPlugins.Proofs.Cache.Incremental

/-!
# Serving — which phases of a batch are compiled or reused

A phase is reused if the cache holds what it asks for, and else it is compiled, if it can be.  A
script goes on to its body only if its preamble was served.  So the classes that a batch loads are
told by the cache that it finds and by its scripts, whatever its workers do.
-/

namespace ScriptPlugins

open FileTree BuildLayout

/-! ## 1. One script -/

namespace Script

variable (s : Script) (compiler : Compiler)

/-- The names of the classes of a script tell its phases apart. -/
theorem classNameOf_inj {s : Script} {phase phase' : Phase}
    (h : s.classNameOf phase = s.classNameOf phase') : phase = phase' := by
  cases phase <;> cases phase'
  · rfl
  · exact absurd h s.classNameOf_ne
  · exact absurd h.symm s.classNameOf_ne
  · rfl

/-- Whether a phase is compiled or reused when a cache holds some stamps: it holds what the phase
asks for, or the phase compiles. -/
def isServed (stamps : String → Option Stamp) (phase : Phase) : Bool :=
  stamps (s.classNameOf phase) = some (s.stamp phase) || (s.plan compiler phase).isOk

/-- The phases that are compiled or reused: those before the first that cannot be. -/
def servedPhases (stamps : String → Option Stamp) : List Phase :=
  s.phases.takeWhile (s.isServed compiler stamps)

/-- The stamps of some entries. -/
def stampsOf (made : String → Option Made) (n : String) : Option Stamp :=
  (made n).map fun m => m.metadata.stamp

/-- A phase gets an entry exactly if it is served. -/
theorem isOk_entryFor (made : String → Option Made) (phase : Phase) (now : Instant) :
    (s.entryFor compiler phase now (made (s.classNameOf phase))).isOk =
      s.isServed compiler (stampsOf made) phase := by
  have hfresh : (s.fresh? phase (made (s.classNameOf phase))).isNone ↔
      (made (s.classNameOf phase)).map (fun m => m.metadata.stamp) ≠ some (s.stamp phase) :=
    s.isNone_fresh?_iff
  rw [entryFor, isServed, stampsOf]
  cases h : s.fresh? phase (made (s.classNameOf phase)) with
  | some m =>
    have hstamp : (made (s.classNameOf phase)).map (fun m => m.metadata.stamp) =
        some (s.stamp phase) := by
      by_contra hne
      have hnone := hfresh.mpr hne
      rw [h] at hnone
      cases hnone
    rw [hstamp, decide_eq_true rfl, Bool.true_or]
    rfl
  | none =>
    have hstamp : (made (s.classNameOf phase)).map (fun m => m.metadata.stamp) ≠
        some (s.stamp phase) := hfresh.mp (by rw [h]; rfl)
    rw [decide_eq_false hstamp, Bool.false_or]
    cases s.plan compiler phase <;> rfl

end Script

namespace Cache

variable {c : Cache} {compiler : Compiler} {s : Script} {scope : Nat} {now : Instant}
  {phase : Phase} {g : Stage}

/-- A phase that is not served exports nothing. -/
theorem phaseOn_of_not_served (c : Cache) (scope : Nat) (now : Instant)
    (h : s.isServed compiler (Script.stampsOf g.made) phase = false) :
    ∃ e g', c.phaseOn compiler s scope now phase g = (.error e, g') ∧ g'.exports = g.exports := by
  rw [← s.isOk_entryFor compiler g.made phase now] at h
  cases hfor : s.entryFor compiler phase now (g.made (s.classNameOf phase)) with
  | ok m => rw [hfor] at h; cases h
  | error e => exact ⟨e, _, phaseOn_error scope hfor, rfl⟩

/-- A phase that is served exports its class, and leaves the other entries as they are. -/
theorem phaseOn_of_served (c : Cache) (scope : Nat) (now : Instant)
    (h : s.isServed compiler (Script.stampsOf g.made) phase = true) :
    ∃ r c' g', c.phaseOn compiler s scope now phase g = (.ok r, g') ∧
      g'.exports = Function.update g.exports (s.classNameOf phase) (some c') ∧
      ∀ n, n ≠ s.classNameOf phase → g'.made n = g.made n := by
  rw [← s.isOk_entryFor compiler g.made phase now] at h
  cases hfor : s.entryFor compiler phase now (g.made (s.classNameOf phase)) with
  | error e => rw [hfor] at h; cases h
  | ok m =>
    exact ⟨_, m.compiled, _, phaseOn_ok scope hfor rfl, rfl,
      fun n hn => Function.update_of_ne hn ..⟩

/-- **A script exports the classes of the phases that are served**, whenever it is compiled. -/
theorem exports_scriptOn_iff (hx : ∀ n, g.exports n = none) (now : Phase → Instant)
    (phase : Phase) : (c.scriptOn compiler s scope now g).2.exports (s.classNameOf phase) ≠ none ↔
      phase ∈ s.servedPhases compiler (Script.stampsOf g.made) := by
  have hne := s.classNameOf_ne
  -- The body, at a stage that has its entry as it was and may export the preamble.
  have hbody {g₁ : Stage} (hmade : g₁.made (s.classNameOf .body) = g.made (s.classNameOf .body)) :
      s.isServed compiler (Script.stampsOf g₁.made) .body =
        s.isServed compiler (Script.stampsOf g.made) .body := by
    rw [Script.isServed, Script.isServed, Script.stampsOf, Script.stampsOf, hmade]
  unfold scriptOn Script.servedPhases
  cases hp : s.hasPreamble with
  | false =>
    rw [preambleOn, hp, if_neg Bool.false_ne_true, s.phases_eq_body hp]
    cases hs : s.isServed compiler (Script.stampsOf g.made) .body with
    | false =>
      obtain ⟨e, g', hg', hexports⟩ := phaseOn_of_not_served c scope (now .body) hs
      simp [hg', hexports, hx, hs]
    | true =>
      obtain ⟨r, c', g', hg', hexports, -⟩ :=
        phaseOn_of_served c scope (now .body) hs
      cases phase <;> simp [hg', hexports, hx, hs, hne]
  | true =>
    rw [preambleOn, hp, if_pos rfl, Script.phases_eq hp]
    cases hs : s.isServed compiler (Script.stampsOf g.made) .preamble with
    | false =>
      obtain ⟨e, g', hg', hexports⟩ :=
        phaseOn_of_not_served c scope (now .preamble) hs
      simp [hg', hexports, hx, hs]
    | true =>
      obtain ⟨r, c', g₁, hg₁, hexports, hmade⟩ :=
        phaseOn_of_served c scope (now .preamble) hs
      have hsame := hbody (hmade _ hne.symm)
      cases hs' : s.isServed compiler (Script.stampsOf g.made) .body with
      | false =>
        obtain ⟨e, g', hg', hexports'⟩ :=
          phaseOn_of_not_served c scope (now .body) (hsame.trans hs')
        cases phase <;> simp [hg₁, hg', hexports', hexports, hx, hs, hs', hne.symm]
      | true =>
        obtain ⟨r', c'', g', hg', hexports', -⟩ :=
          phaseOn_of_served c scope (now .body) (hsame.trans hs')
        cases phase <;> simp [hg₁, hg', hexports', hexports, hs, hs', hne]

end Cache

/-! ## 2. Batches -/

namespace Precompiler

variable {p : Precompiler} {L : Location} {used : Set Script} {scope : Nat}
  {made : String → Option Made}
  {times : Nat → Phase → Instant} {acc : List (Nat × Script)} {scripts : List Script} {t : FileTree}
  {n : String}

/-- The classes of some scripts that are compiled or reused when a cache holds some stamps. -/
def servedBy (compiler : Compiler) (stamps : String → Option Stamp) (acc : List (Nat × Script)) :
    List String :=
  acc.flatMap fun a => (a.2.servedPhases compiler stamps).map a.2.classNameOf

/-- **The classes that a batch compiles or reuses**, those of scripts included that fail at a later
phase. -/
def served (p : Precompiler) (t : FileTree) (scripts : List Script) : List String :=
  servedBy p.compiler (p.layout.cache.stamp? t) (acceptedOf scripts)

theorem mem_servedBy {compiler : Compiler} {stamps : String → Option Stamp} :
    n ∈ servedBy compiler stamps acc ↔
      ∃ a ∈ acc, ∃ phase ∈ a.2.servedPhases compiler stamps, n = a.2.classNameOf phase := by
  simp only [servedBy, List.mem_flatMap, List.mem_map, eq_comm]

/-- No class is served twice. -/
theorem nodup_servedBy (compiler : Compiler) (stamps : String → Option Stamp)
    (hapart : AllApart acc) : (servedBy compiler stamps acc).Nodup := by
  rw [servedBy, List.nodup_flatMap]
  refine ⟨fun a _ => ?_, hapart.imp fun {a a'} h n hn hn' => ?_⟩
  · have hphases : a.2.phases.Nodup := by
      unfold Script.phases
      split <;> decide
    exact (hphases.sublist (List.takeWhile_sublist _)).map fun _ _ => Script.classNameOf_inj
  · obtain ⟨phase, -, rfl⟩ := List.mem_map.mp hn
    obtain ⟨phase', -, heq⟩ := List.mem_map.mp hn'
    exact h.2 _ (a.2.mem_names phase) (heq ▸ a'.2.mem_names phase')

/-- The classes that a scope exports in the end are those that are served. -/
theorem exportsAfter_iff (p : Precompiler) (scope : Nat) (times : Nat → Phase → Instant)
    (hapart : AllApart acc) :
    p.exportsAfter scope acc made times n ≠ none ↔
      n ∈ servedBy p.compiler (Script.stampsOf made) acc := by
  rw [mem_servedBy]
  rcases mem_or_forall_ne acc n with ⟨a, ha, phase, rfl⟩ | hn
  · rw [exportsAfter, stageAt_of_mem hapart ha rfl, scriptOn_stage,
      Cache.exports_scriptOn_iff (g := stageOf made) fun _ => rfl]
    refine ⟨fun h => ⟨a, ha, phase, h, rfl⟩, ?_⟩
    rintro ⟨a', ha', phase', h, heq⟩
    have hsame : a = a' := by
      by_contra hne
      exact (hapart.forall ha ha' hne).2 _ (a.2.mem_names phase) (heq ▸ a'.2.mem_names phase')
    subst hsame
    rwa [Script.classNameOf_inj heq]
  · have hnone : p.exportsAfter scope acc made times n = none := by
      rw [exportsAfter, stageAt_of_not_mem hn]
      rfl
    refine ⟨fun h => absurd hnone h, ?_⟩
    rintro ⟨a, ha, phase, -, heq⟩
    exact absurd heq (hn a ha phase)

/-- What is served depends on the stamps of the scripts only. -/
theorem servedBy_congr {compiler : Compiler} {stamps stamps' : String → Option Stamp}
    (h : ∀ a ∈ acc, ∀ phase, stamps (a.2.classNameOf phase) = stamps' (a.2.classNameOf phase)) :
    servedBy compiler stamps acc = servedBy compiler stamps' acc := by
  refine List.flatMap_congr fun a ha => ?_
  have hserved : a.2.isServed compiler stamps = a.2.isServed compiler stamps' := by
    funext phase
    rw [Script.isServed, Script.isServed, h a ha phase]
  rw [Script.servedPhases, Script.servedPhases, hserved]

/-- The stamps that the cache tells are those of its entries. -/
theorem served_eq (hstocked : p.layout.Stocked L made t) (hmade : MadeFrom used made)
    (htakes : ∀ s ∈ used, p.layout.Takes s) (hs : ∀ s ∈ scripts, s ∈ used) :
    p.served t scripts = servedBy p.compiler (Script.stampsOf made) (acceptedOf scripts) := by
  refine servedBy_congr fun a ha phase => ?_
  have hfits := (htakes _ (mem_of_acceptedOf hs a ha)).fits
  exact (hstocked.shelf reaches_owning).stamp?_eq trivial (hfits.names phase)
    fun m hm => (hmade _ m hm).2.1

end Precompiler

end ScriptPlugins
