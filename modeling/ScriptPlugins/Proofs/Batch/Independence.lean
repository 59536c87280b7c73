import ScriptPlugins.Proofs.Batch.Alike
import ScriptPlugins.Proofs.Batch.Sequential

/-!
# Independence — a batch cannot be told from one that compiles its scripts in their order

Batches are compiled and caches are used in any order.  Whatever came before, a batch reports the
same and leaves the same on any schedule of its workers, whichever of its scripts fail.
-/

namespace ScriptPlugins

open FileTree Owning BuildLayout

variable {b : BuildLayout} {p : Precompiler} {L : Location} {used : Set Script} {root scope : Nat}
  {made : String → Option Made} {times : Nat → Phase → Instant} {acc : List (Nat × Script)}
  {scripts : List Script} {w w₀ w' v v' : World}

/-! ## 1. Whole schedules -/

namespace Precompiler

/-- The reports on scripts that compiled at some times. -/
def reportsAt (p : Precompiler) (scope : Nat) (made : String → Option Made)
    (times : Nat → Phase → Instant) (scripts : List Script) : List ScriptReport :=
  scripts.zipWith (fun s r => ⟨s.id, r⟩) (Reviewed.results
    (fun i s => (p.scriptOn s scope (times i) (stageOf made)).1) (Owners.review [] scripts) 0)

theorem reportsAt_eq (p : Precompiler) (scope : Nat) (made : String → Option Made)
    (times times' : Nat → Phase → Instant) (scripts : List Script) :
    p.reportsAt scope made times scripts = p.reportsAt scope made times' scripts := by
  have hsame : (fun i s => (p.scriptOn s scope (times i) (stageOf made)).1) =
      fun i s => (p.scriptOn s scope (times' i) (stageOf made)).1 :=
    funext₂ fun i s => (p.scriptOn_alike s scope (times i) (times' i) (stageOf made)).1
  rw [reportsAt, reportsAt, hsame]

/-- There is one report on each script, at its own place. -/
theorem map_scriptId_reportsAt (p : Precompiler) (scope : Nat) (made : String → Option Made)
    (times : Nat → Phase → Instant) (scripts : List Script) :
    (p.reportsAt scope made times scripts).map ScriptReport.scriptId = scripts.map Script.id := by
  have hids (ss : List Script) (rs : List ScriptResult) (h : rs.length = ss.length) :
      (ss.zipWith (fun s r => (⟨s.id, r⟩ : ScriptReport)) rs).map ScriptReport.scriptId =
        ss.map Script.id := by
    induction ss generalizing rs with
    | nil => rfl
    | cons s ss ih =>
      cases rs with
      | nil => cases h
      | cons r rs => exact congrArg (s.id :: ·) (ih rs (Nat.succ.inj h))
  refine hids scripts _ ?_
  have hlength := congrArg List.length (Owners.map_fst_review [] scripts)
  rw [Reviewed.results, List.length_map, List.length_zipIdx]
  rwa [List.length_map] at hlength

/-- The scripts of a batch that are not refused, with their places. -/
abbrev acceptedOf (scripts : List Script) : List (Nat × Script) :=
  Reviewed.accepted (Owners.review [] scripts) 0

theorem allApart_acceptedOf (scripts : List Script) : AllApart (acceptedOf scripts) :=
  (Owners.accepted_review [] scripts 0).1

theorem mem_of_acceptedOf (hs : ∀ s ∈ scripts, s ∈ used) : ∀ a ∈ acceptedOf scripts, a.2 ∈ used :=
  fun a ha => hs _ ((Owners.accepted_review [] scripts 0).2 a ha).2.1

/-- What a batch answers and leaves on some schedule; its scripts have ended in between. -/
structure Leaving (p : Precompiler) (L : Location) (scope : Nat) (made : String → Option Made)
    (times : Nat → Phase → Instant) (scripts : List Script) (w₀ w : World)
    (r : Except BuildError BatchReport) (v : World) : Prop where
  ended : p.Ended L scope (acceptedOf scripts) made times w₀ w
  closed : Closed L scope (p.exportsAfter scope (acceptedOf scripts) made times) w v
  report : r = .ok ⟨p.reportsAt scope made times scripts, scope, packagedFiles L w⟩

/-- **What a batch leaves**, whatever the schedule. -/
theorem Opens.leaving (ho : p.Opens L used root scope made w w₀) (hfit : p.layout.Fitting)
    (htakes : ∀ s ∈ used, p.layout.Takes s) (hs : ∀ s ∈ scripts, s ∈ used) {workers : Nat}
    {r : Except BuildError BatchReport}
    (h : (p.withWorkers workers).Schedules root scripts w r v) :
    ∃ times w₁, p.Leaving L scope made times scripts w₀ w₁ r v := by
  obtain ⟨log, hrun⟩ := ho.run scripts workers
  cases h with
  | refused hopen => rw [hrun] at hopen; cases hopen
  | @finished scope' w₁ q hopen hsteps hover =>
    rw [hrun] at hopen
    cases hopen
    have hapart := allApart_acceptedOf scripts
    have hacc := mem_of_acceptedOf hs
    -- The log is the only difference to the state that was opened.
    have hbegins : p.Begins L used root scope made { w₀ with log } :=
      ⟨ho.opened.begins.stands, ho.opened.begins.shelf, ho.opened.begins.madeFrom,
        ho.opened.begins.paved, ho.opened.begins.empty, ho.opened.begins.sound,
        ho.opened.begins.scope, ho.opened.begins.registered, ho.opened.begins.now⟩
    obtain ⟨times, hended, hfinished⟩ := hbegins.ended hfit htakes hapart hacc hsteps hover
    have hended' : p.Ended L scope (acceptedOf scripts) made times w₀ q.world :=
      ⟨⟨hended.keeps.files, hended.keeps.scopes, hended.keeps.registered, hended.keeps.clock⟩,
        hended.tally, hended.leaves⟩
    -- Refusals and answers in any order are the results in the order of the scripts.
    have hresults := (List.Perm.append_left (Reviewed.refusals (Owners.review [] scripts) 0)
      hfinished).trans (Reviewed.perm_results
        (fun i s => (p.scriptOn s scope (times i) (stageOf made)).1) (Owners.review [] scripts) 0)
    rw [reportsOf_perm hresults]
    obtain ⟨v, hclosing, hclosed⟩ := run_closing hfit htakes ho.opened ho.cache hapart hacc hended'
      (p.reportsAt scope made times scripts)
    have hclosing' : Job.run ((p.withWorkers workers).closing scope
        (p.reportsAt scope made times scripts)).run q.world = _ := hclosing
    refine ⟨times, q.world, hended', ?_, ?_⟩
    · exact congrArg Prod.snd hclosing' ▸ hclosed
    · exact congrArg Prod.fst hclosing'

/-- A batch on any schedule leaves the build in order, and so does one that does not open. -/
theorem Schedules.inOrder (h : p.layout.InOrder L used w) (hfit : p.layout.Fitting)
    (htakes : ∀ s ∈ used, p.layout.Takes s) (hs : ∀ s ∈ scripts, s ∈ used)
    {r : Except BuildError BatchReport} (hschedule : p.Schedules root scripts w r v) :
    p.layout.InOrder L used v := by
  cases hroot : w.scopes.isLive root with
  | false =>
    have hopen := run_opening_released (p := p) hroot scripts
    cases hschedule with
    | refused hrun =>
      rw [hopen] at hrun
      cases hrun
      exact h
    | finished hrun =>
      rw [hopen] at hrun
      cases hrun
  | true =>
    obtain ⟨scope, made, w₀, ho⟩ := h.opens hfit hroot
    have hworkers : (p.withWorkers p.workers).Schedules root scripts w r v := hschedule
    obtain ⟨times, w₁, hleaving⟩ := ho.leaving hfit htakes hs hworkers
    have hbegins := ho.opened.begins
    have hapart := allApart_acceptedOf scripts
    have hacc := mem_of_acceptedOf hs
    have hothers := hleaving.closed.packaged.others
    obtain ⟨sc, hsc, hlocked⟩ := hleaving.closed.scopes
    refine ⟨⟨_, hleaving.ended.madeFrom hbegins.madeFrom htakes hapart hacc,
      (hleaving.ended.stocked hapart hbegins ho.cache).elsewhere
        (hothers.mono (packaged_subset L))⟩,
      hleaving.closed.packaged.paved.tidy, Paved.tidy fun m hm => ?_, ?_, ?_⟩
    · rw [hothers.entries m (not_mem_subtree_between (not_prefix_at (by decide) L) hm)]
      exact hleaving.ended.paved hbegins m hm
    · rw [hlocked]
      exact (hleaving.ended.keeps.scopes.sound hbegins.sound).set hsc rfl
    · rw [hleaving.closed.now]
      exact hleaving.ended.keeps.clock hbegins.now

end Precompiler

/-! ## 2. Builds -/

/-- The worlds that a build may come to if batches of some scripts are compiled and its cache is
used.  It begins with an empty directory.  In between everything but the files may change. -/
inductive BuildLayout.Reached (b : BuildLayout) (L : Location) (used : Set Script) :
    World → Prop where
  | start {w : World} (h : b.Empty L w) : Reached b L used (Job.run b.cache.create.run w).2
  | batch {w w' : World} {r : Except BuildError BatchReport} (compiler : Compiler)
      (workers root : Nat)
      {scripts : List Script} (hs : ∀ s ∈ scripts, s ∈ used) (h : Reached b L used w)
      (hr : (Precompiler.mk b compiler workers).Schedules root scripts w r w') : Reached b L used w'
  | compile {w : World} (compiler : Compiler) (s : Script) (scope : Nat) (hs : s ∈ used)
      (h : Reached b L used w) :
      Reached b L used (Job.run (b.cache.compileScript compiler s scope).run w).2
  | remove {w : World} (name : String) (hname : b.cache.Takes name) (h : Reached b L used w) :
      Reached b L used (Job.run (b.cache.remove name).run w).2
  | create {w : World} (h : Reached b L used w) : Reached b L used (Job.run b.cache.create.run w).2
  | clean {w : World} (h : Reached b L used w) : Reached b L used (Job.run b.cache.clean.run w).2
  | list {w : World} (h : Reached b L used w) : Reached b L used (Job.run b.cache.list.run w).2
  | other {w : World} (op : Op) (hop : op.leavesFiles = true) (h : Reached b L used w) :
      Reached b L used (op.perform w).2
  | tick {w : World} (now : Instant) (hnow : now.valid = true) (h : Reached b L used w) :
      Reached b L used { w with now }

/-- Nothing that happens to a build brings it out of order. -/
theorem BuildLayout.Reached.inOrder (hfit : b.Fitting) (htakes : ∀ s ∈ used, b.Takes s)
    (h : b.Reached L used w) : b.InOrder L used w := by
  induction h with
  | start h =>
    obtain ⟨t, hrun, horder⟩ := h.run_create hfit used
    rw [hrun]
    exact horder
  | batch compiler workers root hs _ hr ih => exact hr.inOrder ih hfit htakes hs
  | compile compiler s scope hs _ ih =>
    exact ih.of_sane (Cache.preserves_compileScript compiler scope (htakes s hs).fits hs _
      (ih.sane hfit))
  | remove name hname _ ih => exact ih.of_sane (Cache.preserves_remove hname _ (ih.sane hfit))
  | create _ ih => exact ih.of_sane (Cache.preserves_create _ (ih.sane hfit))
  | clean _ ih => exact ih.of_sane (Cache.preserves_clean _ (ih.sane hfit))
  | list _ ih => exact ih.of_sane (Cache.preserves_list _ (ih.sane hfit))
  | other op hop _ ih => exact ih.of_sane (Cache.ofFiles_sane op _ hop (ih.sane hfit))
  | tick now hnow _ ih => exact ⟨ih.stocked, ih.packaged, ih.adapters, ih.scopes, hnow⟩

/-! ## 3. Schedules -/

theorem World.Alike.refl (w : World) : w.Alike w :=
  ⟨⟨rfl, fun _ => .inl rfl⟩, ⟨rfl, fun _ => ScopeTree.rel_refl _⟩, .refl _⟩

namespace Precompiler

/-- What a batch answers and leaves if it compiles its scripts one after the other. -/
def inOrderOf (p : Precompiler) (root : Nat) (scripts : List Script) (w : World) :
    Except BuildError BatchReport × World :=
  Job.run ((p.withWorkers 1).compileScripts root scripts).run w

/-- Two schedules of a batch, with any numbers of workers, answer the same and leave the same. -/
theorem Opens.alike (ho : p.Opens L used root scope made w w₀) (hfit : p.layout.Fitting)
    (htakes : ∀ s ∈ used, p.layout.Takes s) (hs : ∀ s ∈ scripts, s ∈ used) {workers workers' : Nat}
    {r r' : Except BuildError BatchReport}
    (h : (p.withWorkers workers).Schedules root scripts w r v)
    (h' : (p.withWorkers workers').Schedules root scripts w r' v') : r = r' ∧ v.Alike v' := by
  obtain ⟨times, w₁, hl⟩ := ho.leaving hfit htakes hs h
  obtain ⟨times', w₁', hl'⟩ := ho.leaving hfit htakes hs h'
  have hapart := allApart_acceptedOf scripts
  have hcount := hl.ended.packagedFiles_eq hl'.ended hapart ho.opened.begins
  refine ⟨?_, hl.ended.alike hl'.ended hapart ho.opened.begins hl.closed hl'.closed⟩
  rw [hl.report, hl'.report, hcount, p.reportsAt_eq scope made times times']

/-- **A batch does not depend on its schedule.**  It reports on each script at its place what it
would report if the scripts were compiled one after the other, and it leaves the same files, scopes
and registered directories, but for times and the order of directories.  Whatever its workers have
done, they can go on to the end. -/
theorem compileScripts_independent (hfit : p.layout.Fitting) (htakes : ∀ s ∈ used, p.layout.Takes s)
    (h : p.layout.Reached L used w) (hs : ∀ s ∈ scripts, s ∈ used) (root : Nat) :
    (∀ r v, p.Schedules root scripts w r v →
      r = (p.inOrderOf root scripts w).1 ∧ v.Alike (p.inOrderOf root scripts w).2) ∧
    (w.scopes.isLive root = true → ∃ report, (p.inOrderOf root scripts w).1 = .ok report ∧
      report.scripts.map ScriptReport.scriptId = scripts.map Script.id) ∧
    ∀ scope w₀ q, Job.run (p.opening root scripts).run w = (.ok scope, w₀) →
      Pool.Steps (p.workersFor (acceptedOf scripts).length)
        (.queue (p.jobs scope (acceptedOf scripts)) w₀) q →
      ∃ q', Pool.Steps (p.workersFor (acceptedOf scripts).length) q q' ∧ q'.IsOver := by
  have horder := h.inOrder hfit htakes
  have hsequential : (p.withWorkers 1).Schedules root scripts w (p.inOrderOf root scripts w).1
      (p.inOrderOf root scripts w).2 := schedules_compileScripts _ root scripts w
  refine ⟨fun r v hr => ?_, fun hroot => ?_, fun scope w₀ q _ _ =>
    Pool.exists_over (p.workersFor_pos _) q⟩
  · cases hroot : w.scopes.isLive root with
    | true =>
      obtain ⟨scope, made, w₀, ho⟩ := horder.opens hfit hroot
      have hworkers : (p.withWorkers p.workers).Schedules root scripts w r v := hr
      -- Both runs open alike, and each leaves what the stages tell, so they differ in times at
      -- most.
      exact ho.alike hfit htakes hs hworkers hsequential
    | false =>
      have hrun : p.inOrderOf root scripts w = (.error (.scope (.released root)), w) :=
        Attempt.run_bind_error (run_opening_released (p := p.withWorkers 1) hroot scripts)
      have hopen := run_opening_released (p := p) hroot scripts
      cases hr with
      | refused hrefused =>
        rw [hopen] at hrefused
        cases hrefused
        rw [hrun]
        exact ⟨rfl, .refl w⟩
      | finished hfinished =>
        rw [hopen] at hfinished
        cases hfinished
  · obtain ⟨scope, made, w₀, ho⟩ := horder.opens hfit hroot
    obtain ⟨times, w₁, hl⟩ := ho.leaving hfit htakes hs hsequential
    exact ⟨_, hl.report, p.map_scriptId_reportsAt scope made times scripts⟩

/-- Two scripts with one source. -/
def smallScripts : List Script :=
  let source := "plugins \x7b id 'java' \x7d\nprintln 'x'"
  [⟨"one", .project, source, none⟩, ⟨"two", .project, source, none⟩]

theorem takes_smallScripts : ∀ s ∈ smallScripts, BuildLayout.small.Takes s := by
  intro s hs
  simp only [smallScripts, List.mem_cons, List.not_mem_nil, or_false] at hs
  rcases hs with rfl | rfl <;>
    exact .of_short BuildLayout.room_small (by decide +kernel) (by decide +kernel)

/-- Two workers, and a compiler that crashes on the body of the second script. -/
def smallPrecompiler : Precompiler :=
  ⟨.small, ⟨fun name _ => if name = "precompiled_two" then some "crash" else none⟩, 2⟩

/-- The theorem for the first batch of a build. -/
theorem compileScripts_independent_two :
    let w := (Job.run BuildLayout.small.cache.create.run BuildLayout.bareWorld).2
    (∀ r v, smallPrecompiler.Schedules 0 smallScripts w r v →
      r = (smallPrecompiler.inOrderOf 0 smallScripts w).1 ∧
        v.Alike (smallPrecompiler.inOrderOf 0 smallScripts w).2) :=
  (compileScripts_independent (p := smallPrecompiler) BuildLayout.fitting_small takes_smallScripts
    (.start BuildLayout.empty_bareWorld) (fun _ h => h) 0).1

end Precompiler

end ScriptPlugins
