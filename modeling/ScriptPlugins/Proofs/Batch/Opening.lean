import ScriptPlugins.Proofs.Batch.Together
import ScriptPlugins.Proofs.Build.Stocked

/-!
# Opening — what a batch finds when its scripts begin

Before any script is compiled, a batch makes a scope, begins a new register and makes room for its
output.  In a build in order this never fails.
-/

namespace ScriptPlugins

open FileTree BuildLayout

variable {b : BuildLayout} {p : Precompiler} {L : Location} {used : Set Script} {root : Nat}
  {t t' : FileTree} {w : World} {made : String → Option Made}

/-! ## 1. Room for the output -/

/-- The way to a directory of the output lies in the output. -/
theorem between_subset {ss : List String} (hs : ss.head? = some "generated-classes") :
    between L ss ⊆ subtree (L ++ outputNames) := by
  obtain ⟨ss, rfl⟩ := List.head?_eq_some_iff.mp hs
  intro m hm
  obtain ⟨s, r, rfl⟩ := exists_of_mem_inside hm.1
  have hp := (List.prefix_append_right_inj L).mp hm.2
  rw [(List.cons_prefix_cons.mp hp).1]
  exact ⟨r, by simp [outputNames]⟩

/-- What is made anew below one directory of the output leaves the other one as it can be made
anew. -/
theorem FileTree.Tidy.apart {ss ss' : List String} (h : Tidy L ss' t) (hne : ¬ss <+: ss')
    (hne' : ¬ss' <+: ss)
    (hs : SameOutside (subtree (L ++ ss) ∪ between L ss) t t') (hpaved : Paved L ss t') :
    Tidy L ss' t' := by
  have hsame {m : Location} (hm : m ∈ between L ss') (hb : m ∉ between L ss) :
      t'.entry? m = t.entry? m :=
    hs.entries m fun h => h.elim (not_mem_subtree_between (not_prefix_at hne L) hm) hb
  refine ⟨fun m hm => ?_, fun ⟨m, hm, hnone⟩ r => ?_⟩
  · by_cases hb : m ∈ between L ss
    · exact .inr (hpaved m hb)
    · rw [hsame hm hb]
      exact h.clear m hm
  · have hb : m ∉ between L ss := fun hb => by rw [hpaved m hb] at hnone; cases hnone
    rw [hsame hm hb] at hnone
    rw [hs.entries _ fun h => h.elim (not_mem_subtree (not_prefix_at hne L) (not_prefix_at hne' L))
      fun h => not_prefix_at hne' L ((List.prefix_append _ r).trans h.2)]
    exact h.hollow ⟨m, hm, hnone⟩ r

theorem FileTree.Paved.apart {ss ss' : List String} (h : Paved L ss' t) (hne : ¬ss <+: ss')
    (hs : SameOutside (subtree (L ++ ss) ∪ between L ss) t t') (hpaved : Paved L ss t') :
    Paved L ss' t' := by
  intro m hm
  by_cases hb : m ∈ between L ss
  · exact hpaved m hb
  · rw [hs.entries m fun h => h.elim (not_mem_subtree_between (not_prefix_at hne L) hm) hb, h m hm]

theorem FileTree.EmptyAt.apart {ss ss' : List String} (h : t.EmptyAt (L ++ ss')) (hne : ¬ss <+: ss')
    (hne' : ¬ss' <+: ss) (hs : SameOutside (subtree (L ++ ss) ∪ between L ss) t t') :
    t'.EmptyAt (L ++ ss') := by
  have hsame (r : Location) : t'.entry? (L ++ ss' ++ r) = t.entry? (L ++ ss' ++ r) :=
    hs.entries _ fun h => h.elim (not_mem_subtree (not_prefix_at hne L) (not_prefix_at hne' L))
      fun h => not_prefix_at hne' L ((List.prefix_append _ r).trans h.2)
  refine ⟨?_, fun s r => (hsame _).trans (h.empty s r)⟩
  have hroot := hsame []
  rw [List.append_nil] at hroot
  rw [hroot, h.directory]

/-- What is there when the output has been made anew. -/
structure Vacant (L : Location) (t t' : FileTree) : Prop where
  others : SameOutside (subtree (L ++ outputNames)) t t'
  packaged : Paved L packagedNames t'
  noClasses : t'.EmptyAt (L ++ packagedNames)
  adapters : Paved L adaptersNames t'
  noAdapters : t'.EmptyAt (L ++ adaptersNames)

/-- The output is made anew. -/
theorem run_resetOutput (hfit : p.layout.Fitting) (hp : Standing (inside L) w.files p.layout.root L)
    (hpackaged : Tidy L packagedNames w.files) (hadapters : Tidy L adaptersNames w.files) :
    ∃ t, Job.run p.resetOutput.run w = (.ok (), { w with files := t }) ∧ Vacant L w.files t := by
  have hnames : ∀ s ∈ packagedNames, IsName s := by decide
  have hnames' : ∀ s ∈ adaptersNames, IsName s := by decide
  obtain ⟨t₁, hrun₁, hs₁, hempty₁, hpaved₁⟩ := run_resetDirectory hp hnames (by decide)
    hfit.packaged hpackaged
  have hsub₁ : SameOutside (subtree (L ++ outputNames)) w.files t₁ :=
    hs₁.mono (Set.union_subset (packaged_subset L) (between_subset rfl))
  have hp₁ := hp.stays (hsub₁.mono (subtree_subset_inside L _))
  obtain ⟨t₂, hrun₂, hs₂, hempty₂, hpaved₂⟩ := run_resetDirectory (w := { w with files := t₁ }) hp₁
    hnames' (by decide) hfit.adapters (hadapters.apart (by decide) (by decide) hs₁ hpaved₁)
  have hfirst : Job.run (resetDirectory p.layout.outputClasses).run w =
      (.ok (), { w with files := t₁ }) := hrun₁
  refine ⟨t₂, ?_,
    hsub₁.trans (hs₂.mono (Set.union_subset (adapters_subset L) (between_subset rfl))),
    hpaved₁.apart (by decide) hs₂ hpaved₂, hempty₁.apart (by decide) (by decide) hs₂,
      hpaved₂, hempty₂⟩
  rw [Precompiler.resetOutput, Attempt.run_bind_ok hfirst]
  exact hrun₂

/-! ## 2. Opening a batch -/

/-- The world in which the scripts of a batch begin, with room for what is packaged. -/
structure Precompiler.Opened (p : Precompiler) (L : Location) (used : Set Script) (root scope : Nat)
    (made : String → Option Made) (w : World) : Prop where
  begins : p.Begins L used root scope made w
  packaged : Paved L packagedNames w.files
  noClasses : w.files.EmptyAt (L ++ packagedNames)

/-- A batch with another number of workers. -/
def Precompiler.withWorkers (p : Precompiler) (workers : Nat) : Precompiler := { p with workers }

/-- What a batch opens.  It does not depend on its scripts, nor on the number of its workers. -/
structure Precompiler.Opens (p : Precompiler) (L : Location) (used : Set Script) (root scope : Nat)
    (made : String → Option Made) (w w₀ : World) : Prop where
  opened : p.Opened L used root scope made w₀
  cache : w₀.files.entry? (L ++ ["compiled-scripts"]) = some .directory
  run : ∀ scripts workers, ∃ log,
    Job.run ((p.withWorkers workers).opening root scripts).run w = (.ok scope, { w₀ with log })

/-- The world of a batch that has made its scope and nothing else. -/
def World.begun (w : World) (root : Nat) (sc : Scope) : World where
  files := w.files
  scopes := w.scopes.grown root sc batchScopeName
  registered := []
  log := w.log ++ [.scopeCreated batchScopeName root]
  now := w.now

/-- A batch opens below a live scope, if its output is made anew. -/
theorem run_opening {sc : Scope} {text : String} (hsc : w.scopes.scope? root = some sc)
    (htext : (w.scopes.grown root sc batchScopeName).path w.scopes.slots.length = .ok text)
    (hreset : Job.run p.resetOutput.run (w.begun root sc) =
      (.ok (), { w.begun root sc with files := t }))
    (scripts : List Script) :
    ∃ log, Job.run (p.opening root scripts).run w =
      (.ok w.scopes.slots.length, { w.begun root sc with files := t, log }) := by
  let w₁ : World := { w.begun root sc with registered := w.registered }
  have hnew : Job.run (Attempt.adapt BuildError.scope (Attempt.newScope root batchScopeName)).run
      w = (.ok w.scopes.slots.length, w₁) :=
    Attempt.run_adapt (Attempt.run_newScope hsc batchScopeName)
  have hregister : Job.run (Attempt.perform .openRegister : Attempt BuildError Unit).run w₁ =
      (.ok (), w.begun root sc) := rfl
  have hpath : ((w.begun root sc).scopes.path w.scopes.slots.length).mapError BuildError.scope =
      .ok text := by
    rw [World.begun, htext]
    rfl
  let pending := (Owners.review [] scripts).countP (·.2.isNone)
  refine ⟨(w.begun root sc).log ++ [.batchStarted scripts.length (p.workersFor pending) text], ?_⟩
  rw [Precompiler.opening, Attempt.run_bind_ok hnew, Attempt.run_bind_ok hregister,
    Attempt.run_bind_ok hreset, Attempt.run_bind_ok (Attempt.run_scopes _),
    Attempt.run_bind_ok (Attempt.run_of hpath _)]
  rfl

/-- **A batch opens** in a build in order, if the scope above it is live.  It finds what the cache
held. -/
theorem BuildLayout.InOrder.opens_stocked (h : p.layout.InOrder L used w) (hfit : p.layout.Fitting)
    (hroot : w.scopes.isLive root = true) :
    ∃ scope made w₀, p.layout.Stocked L made w.files ∧ p.Opens L used root scope made w w₀ := by
  obtain ⟨sc, hsc⟩ := Option.isSome_iff_exists.mp hroot
  obtain ⟨made, hmade, hstocked⟩ := h.stocked
  have hsound : (w.scopes.grown root sc batchScopeName).Sound := h.scopes.grown hsc batchScopeName
  have hscope := ScopeTree.scope?_grown_new hsc batchScopeName
  obtain ⟨text, htext⟩ := hsound.path hscope
  obtain ⟨t, hreset, hvacant⟩ :=
    run_resetOutput (w := w.begun root sc) hfit hstocked.stands h.packaged h.adapters
  have hstocked' := hstocked.elsewhere hvacant.others
  exact ⟨w.scopes.slots.length, made, { w.begun root sc with files := t }, hstocked,
    ⟨⟨hstocked'.stands, hstocked'.shelf reaches_owned, hmade, hvacant.adapters, hvacant.noAdapters,
      hsound, hscope, rfl, h.now⟩, hvacant.packaged, hvacant.noClasses⟩, hstocked'.cache_directory,
    fun scripts workers => run_opening (p := p.withWorkers workers) hsc htext hreset scripts⟩

theorem BuildLayout.InOrder.opens (h : p.layout.InOrder L used w) (hfit : p.layout.Fitting)
    (hroot : w.scopes.isLive root = true) :
    ∃ scope made w₀, p.Opens L used root scope made w w₀ := by
  obtain ⟨scope, made, w₀, -, ho⟩ := h.opens_stocked hfit hroot
  exact ⟨scope, made, w₀, ho⟩

/-- A batch does not open below a scope that has been released, and nothing happens. -/
theorem run_opening_released (hroot : w.scopes.isLive root = false) (scripts : List Script) :
    Job.run (p.opening root scripts).run w = (.error (.scope (.released root)), w) := by
  have hnone : w.scopes.scope? root = none := by
    rwa [ScopeTree.isLive, Option.isSome_eq_false_iff, Option.isNone_iff_eq_none] at hroot
  have hnew : w.scopes.newChild root batchScopeName = .error (.released root) := by
    rw [ScopeTree.newChild, ScopeTree.get, hnone]
    rfl
  have hperform : Op.perform (.newScope root batchScopeName) w = (.error (.released root), w) := by
    rw [Op.perform, hnew]
  have hop : Job.run (ExceptT.mk (Job.perform (.newScope root batchScopeName)) :
      Attempt ScopeError Nat).run w = (.error (.released root), w) := hperform
  have hscope : Job.run (Attempt.newScope root batchScopeName).run w =
      (.error (.released root), w) :=
    Attempt.run_bind_error hop
  exact Attempt.run_bind_error (Attempt.run_adapt hscope)

end ScriptPlugins
