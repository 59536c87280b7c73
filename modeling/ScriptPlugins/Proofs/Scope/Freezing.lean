import ScriptPlugins.Compile.Unit
import ScriptPlugins.Proofs.Job.Pools
import ScriptPlugins.Proofs.Scope.Histories

/-!
# Freezing — a locked scope exports nothing more, whoever is at work

Whoever exports a directory asks the scope first, then reads, and exports only then; others lock the
scope, export to it or release it in between.  The scope is therefore asked again when the classes
are at hand, and what counts is that answer.  So, whatever the schedule, a scope that is locked
keeps its exports until it is released, whatever is exported is exported while the scope is open,
and no export takes the place of an earlier one.
-/

namespace ScriptPlugins

/-! ## 1. What becomes of a scope -/

namespace Scope

variable {s s' s'' : Scope}

/-- What a scope itself exports. -/
def exports (s : Scope) : Std.ExtTreeMap String CompiledClass × List Path :=
  (s.classes, s.directories)

/-- What a scope may be later.  It exports more at most, and nothing more once it is locked. -/
structure GrowsTo (s s' : Scope) : Prop where
  locked : s.locked = true → s'.locked = true
  frozen : s.locked = true → s'.exports = s.exports
  classes : ∀ (n : String) (c : CompiledClass), s.classes[n]? = some c → s'.classes[n]? = some c
  directories : s.directories <+: s'.directories

theorem GrowsTo.of_exports (hexports : s'.exports = s.exports)
    (hlocked : s.locked = true → s'.locked = true) : s.GrowsTo s' := by
  have hclasses : s'.classes = s.classes := congrArg Prod.fst hexports
  have hdirectories : s'.directories = s.directories := congrArg Prod.snd hexports
  exact ⟨hlocked, fun _ => hexports, fun n c hc => hclasses ▸ hc, hdirectories ▸ List.prefix_rfl⟩

theorem GrowsTo.trans (h : s.GrowsTo s') (h' : s'.GrowsTo s'') : s.GrowsTo s'' where
  locked := fun hs => h'.locked (h.locked hs)
  frozen := fun hs => (h'.frozen (h.locked hs)).trans (h.frozen hs)
  classes := fun n c hc => h'.classes n c (h.classes n c hc)
  directories := h.directories.trans h'.directories

theorem getElem?_foldl_insert_of_ne {cs : List CompiledClass} {n : String}
    (h : ∀ c ∈ cs, c.name ≠ n) (m : Std.ExtTreeMap String CompiledClass) :
    (cs.foldl (fun m c => m.insert c.name c) m)[n]? = m[n]? := by
  induction cs generalizing m with
  | nil => rfl
  | cons c cs ih =>
    have hne : n ≠ c.name := (h c List.mem_cons_self).symm
    rw [List.foldl_cons, ih fun c' hc' => h c' (List.mem_cons_of_mem c hc'), getElem?_insert_name,
      if_neg hne]

theorem Revised.growsTo (h : s.Revised s') : s.GrowsTo s' := by
  -- What is new has a name of its own, and comes only to an open scope.
  cases h with
  | locked => exact .of_exports rfl fun _ => rfl
  | reused => exact .of_exports rfl id
  | exported c hopen hnew =>
    refine ⟨id, fun hs => absurd (hopen.symm.trans hs) nofun, fun n c' hc' => ?_, List.prefix_rfl⟩
    have hne : n ≠ c.name := fun he => by simp [he, hnew] at hc'
    rwa [getElem?_insert_name, if_neg hne]
  | exportedAll dir cs hopen hnew =>
    refine ⟨id, fun hs => absurd (hopen.symm.trans hs) nofun, fun n c' hc' => ?_,
      List.prefix_append ..⟩
    rwa [getElem?_foldl_insert_of_ne]
    intro c hc he
    simp [← he, hnew c hc] at hc'

theorem Revised.open_of_ne (h : s.Revised s') (hne : s'.exports ≠ s.exports) :
    s.locked = false ∧ s'.locked = false := by
  cases h with
  | locked => exact absurd rfl hne
  | reused => exact absurd rfl hne
  | exported c hopen hnew => exact ⟨hopen, hopen⟩
  | exportedAll dir cs hopen hnew => exact ⟨hopen, hopen⟩

end Scope

namespace ScopeTree

variable {t : ScopeTree} {id : Nat} {s s' : Scope}

/-- A call revises a scope that it leaves, or changes nothing that the scope exports. -/
theorem revised_after {call : Call} (h : t.scope? id = some s)
    (h' : (t.after call).scope? id = some s') :
    s.Revised s' ∨ (s'.exports = s.exports ∧ s'.locked = s.locked) := by
  cases t.becomes_after call id with
  | revised hs hs' hrevised =>
    rw [h] at hs
    rw [h'] at hs'
    cases hs
    cases hs'
    exact .inl hrevised
  | kept hs hs' =>
    rw [h] at hs
    rw [h'] at hs'
    cases hs
    cases hs'
    exact .inr ⟨rfl, rfl⟩
  | absent hs' =>
    rw [h'] at hs'
    cases hs'
  | made hid _ => exact absurd hid (Nat.ne_of_lt (lt_of_scope? h))

/-- A scope that was not there before exports nothing yet. -/
theorem fresh_after {call : Call} (h : t.scope? id = none)
    (h' : (t.after call).scope? id = some s') : s'.exports = (∅, []) := by
  cases t.becomes_after call id with
  | revised hs _ _ =>
    rw [h] at hs
    cases hs
  | kept hs _ =>
    rw [h] at hs
    cases hs
  | absent hs' =>
    rw [h'] at hs'
    cases hs'
  | made _ hs' =>
    rw [h'] at hs'
    cases hs'
    rfl

theorem growsTo_after {call : Call} (h : t.scope? id = some s)
    (h' : (t.after call).scope? id = some s') : s.GrowsTo s' := by
  rcases revised_after h h' with hrevised | ⟨hexports, hlocked⟩
  · exact hrevised.growsTo
  · exact .of_exports hexports hlocked.trans

theorem growsTo_afterAll (h : t.scope? id = some s) (calls : List Call) :
    (t.afterAll calls).Gone id ∨ ∃ s', (t.afterAll calls).scope? id = some s' ∧ s.GrowsTo s' := by
  induction calls generalizing t s with
  | nil => exact .inr ⟨s, h, .of_exports rfl fun hs => hs⟩
  | cons call calls ih =>
    cases h₁ : (t.after call).scope? id with
    | none =>
      have hlt : id < (t.after call).slots.length :=
        Nat.lt_of_lt_of_le (lt_of_scope? h) (t.length_le_after call)
      exact .inl (Gone.afterAll ⟨hlt, h₁⟩ calls)
    | some s₁ =>
      rcases ih h₁ with hgone | ⟨s', hs', hgrows⟩
      · exact .inl hgone
      · exact .inr ⟨s', hs', (growsTo_after h h₁).trans hgrows⟩

end ScopeTree

/-! ## 2. Schedules -/

/-- An operation makes at most one call on the scopes. -/
theorem Op.scopes_perform (op : Op) (w : World) :
    (op.perform w).2.scopes = w.scopes ∨ ∃ call, (op.perform w).2.scopes = w.scopes.after call := by
  cases op with
  | newScope parent name =>
    refine .inr ⟨.newChild parent name, ?_⟩
    rw [Op.perform, ScopeTree.after]
    split <;> simp_all
  | alter c =>
    refine .inr ⟨.change c, ?_⟩
    rw [Op.perform, ScopeTree.after]
    split <;> simp_all
  | observe => exact .inl rfl
  | change c => exact .inl rfl
  | openRegister => exact .inl rfl
  | register dir => exact .inl rfl
  | report e => exact .inl rfl

namespace Pool

variable {α β : Type} {workers : Nat} {p p' q : Pool α}

theorem Step.scopes (h : Step workers p q) : q.world.scopes = p.world.scopes ∨
    ∃ call, q.world.scopes = p.world.scopes.after call := by
  cases h with
  | turn h =>
    cases h with
    | start h => exact .inl rfl
    | perform i op rest => exact op.scopes_perform _
    | finish i a => exact .inl rfl
  | tick now h => exact .inl rfl

theorem Steps.scopes (h : Steps workers p q) :
    ∃ calls, q.world.scopes = p.world.scopes.afterAll calls := by
  induction h with
  | refl => exact ⟨[], rfl⟩
  | tail _ hstep ih =>
    obtain ⟨calls, hcalls⟩ := ih
    rcases hstep.scopes with he | ⟨call, he⟩
    · exact ⟨calls, he.trans hcalls⟩
    · refine ⟨calls ++ [call], ?_⟩
      rw [he, hcalls, ScopeTree.afterAll, ScopeTree.afterAll, List.foldl_append]
      rfl

/-- A job that is done in the course of a schedule: each of its operations is a step there, and
others come before it. -/
inductive Does (workers : Nat) : Job β → Pool α → β → Pool α → Prop
  | done {b : β} {p q : Pool α} (h : Steps workers p q) : Does workers (.done b) p b q
  | next {op : Op} {rest : op.Reply → Job β} {b : β} {p r r' q : Pool α} (h : Steps workers p r)
      (hstep : Step workers r r') (hworld : r'.world = (op.perform r.world).2)
      (hrest : Does workers (rest (op.perform r.world).1) r' b q) :
      Does workers (.next op rest) p b q

theorem Does.steps {j : Job β} {b : β} (h : Does workers j p b q) : Steps workers p q := by
  induction h with
  | done h => exact h
  | next h hstep _ _ ih => exact h.trans (.head hstep ih)

theorem Does.head {j : Job β} {b : β} (h : Step workers p p') (hj : Does workers j p' b q) :
    Does workers j p b q := by
  cases hj with
  | done hsteps => exact .done (.head h hsteps)
  | next hsteps hstep hworld hrest => exact .next (.head h hsteps) hstep hworld hrest

theorem Does.of_bind {γ : Type} {j : Job β} {f : β → Job γ} {c : γ}
    (h : Does workers (j >>= f) p c q) :
    ∃ b r, Does workers j p b r ∧ Does workers (f b) r c q := by
  induction j generalizing p with
  | done b => exact ⟨b, p, .done .refl, h⟩
  | next op rest ih =>
    change Does workers (.next op fun r => rest r >>= f) p c q at h
    cases h with
    | next h hstep hworld hrest =>
      obtain ⟨b, r, hfirst, hthen⟩ := ih _ hrest
      exact ⟨b, r, .next h hstep hworld hfirst, hthen⟩

theorem Does.of_map {γ : Type} {f : β → γ} {j : Job β} {c : γ} (h : Does workers (f <$> j) p c q) :
    ∃ b r, c = f b ∧ Does workers j p b r ∧ Steps workers r q := by
  obtain ⟨b, r, hj, hpure⟩ := Does.of_bind h
  change Does workers (.done (f b)) r c q at hpure
  cases hpure with
  | done hsteps => exact ⟨b, r, rfl, hj, hsteps⟩

/-- An answer that comes in the course of a schedule is that of a job which was done there. -/
theorem Steps.does (h : Steps workers p q) {i : Nat} {a : α} (ha : (i, a) ∈ q.finished) :
    (i, a) ∈ p.finished ∨ ∃ j, (i, j) ∈ p.waiting ++ p.working ∧ Does workers j p a q := by
  -- From the end of the schedule to its beginning, where the job is still whole.
  induction h using Relation.ReflTransGen.head_induction_on with
  | refl => exact .inl ha
  | head hstep hsteps ih =>
    -- A job that the step leaves alone is done later as it stands.
    cases hstep with
    | tick now hnow =>
      rcases ih with hfinished | ⟨j, hj, hdoes⟩
      · exact .inl hfinished
      · exact .inr ⟨j, hj, hdoes.head (.tick now hnow)⟩
    | turn hturn =>
      cases hturn with
      | @start j waiting working finished w hfree =>
        rcases ih with hfinished | ⟨j', hj', hdoes⟩
        · exact .inl hfinished
        · exact .inr ⟨j', List.perm_middle.mem_iff.mp hj', hdoes.head (.turn (.start hfree))⟩
      | @perform waiting before after finished w k op rest =>
        have hstep : Step workers ⟨waiting, before ++ (k, .next op rest) :: after, finished, w⟩ _ :=
          .turn (.perform k op rest)
        rcases ih with hfinished | ⟨j, hj, hdoes⟩
        · exact .inl hfinished
        · right
          simp only [List.mem_append, List.mem_cons, Prod.mk.injEq] at hj
          rcases hj with hj | hj | ⟨rfl, rfl⟩ | hj
          · exact ⟨j, by simp [hj], hdoes.head hstep⟩
          · exact ⟨j, by simp [hj], hdoes.head hstep⟩
          · exact ⟨.next op rest, by simp, .next .refl hstep rfl hdoes⟩
          · exact ⟨j, by simp [hj], hdoes.head hstep⟩
      | @finish waiting before after finished w k b =>
        have hstep : Step workers ⟨waiting, before ++ (k, .done b) :: after, finished, w⟩ _ :=
          .turn (.finish k b)
        rcases ih with hfinished | ⟨j, hj, hdoes⟩
        · simp only [List.mem_append, List.mem_singleton, Prod.mk.injEq] at hfinished
          rcases hfinished with hfinished | ⟨rfl, rfl⟩
          · exact .inl hfinished
          · exact .inr ⟨.done a, by simp, .done (.head hstep hsteps)⟩
        · refine .inr ⟨j, ?_, hdoes.head hstep⟩
          simp only [List.mem_append, List.mem_cons] at hj ⊢
          exact hj.imp_right fun h => h.imp_right .inr

/-! ## 3. Attempts in a schedule -/

/-- Where an attempt answers, its first part has answered before. -/
theorem Does.of_bind_ok {ε γ : Type} {x : Attempt ε β} {f : β → Attempt ε γ} {c : γ}
    (h : Does workers (x >>= f).run p (.ok c) q) :
    ∃ b r, Does workers x.run p (.ok b) r ∧ Does workers (f b).run r (.ok c) q := by
  obtain ⟨b, r, hx, hf⟩ := Does.of_bind h
  cases b with
  | ok b => exact ⟨b, r, hx, hf⟩
  | error e =>
    change Does workers (.done (Except.error e)) r (Except.ok c) q at hf
    cases hf

theorem Does.of_pure {ε : Type} {b b' : β}
    (h : Does workers (Pure.pure b : Attempt ε β).run p (.ok b') q) : b' = b := by
  change Does workers (.done (Except.ok b)) p (Except.ok b') q at h
  cases h
  rfl

/-- A change that is made is made by one step. -/
theorem Does.of_alter {ε : Type} {refused : ScopeError → ε} {c : ScopeTree.Change}
    (h : Does workers (Attempt.alter refused c).run p (.ok ()) q) : ∃ r r', Steps workers p r ∧
      Step workers r r' ∧ r.world.scopes.apply c = .ok r'.world.scopes ∧ Steps workers r' q := by
  change Does workers (.next (.alter c) fun reply => .done (reply.mapError refused)) p
    (.ok ()) q at h
  cases h with
  | @next _ _ _ _ r r' _ h hstep hworld hrest =>
    rw [Op.perform] at hworld hrest
    cases happly : r.world.scopes.apply c with
    | error e =>
      rw [happly] at hrest
      change Does workers (.done (Except.error (refused e))) r' (Except.ok ()) q at hrest
      cases hrest
    | ok t =>
      rw [happly] at hworld
      exact ⟨r, r', h, hstep, by rw [happly, hworld], hrest.steps⟩

/-- Whoever is told that a directory was exported exported it in one step, to a scope that was open
then and had none of its classes. -/
theorem Does.of_exportDirectory {scope : Nat} {dir : Path} {names : List String}
    (h : Does workers (exportDirectory scope dir).run p (.ok names) q) :
    ∃ r r' s cs, Steps workers p r ∧ Step workers r r' ∧ Steps workers r' q ∧
      r.world.scopes.scope? scope = some s ∧ s.locked = false ∧
      names = cs.map CompiledClass.name ∧ (∀ n ∈ names, s.classes[n]? = none) ∧
      r.world.scopes.exportAll scope dir cs = .ok r'.world.scopes := by
  unfold exportDirectory at h
  obtain ⟨asked, p₁, hscopes, h⟩ := Does.of_bind_ok h
  obtain ⟨_, p₂, hasked, h⟩ := Does.of_bind_ok h
  obtain ⟨read, p₃, hfiles, h⟩ := Does.of_bind_ok h
  obtain ⟨cs, p₄, hread, h⟩ := Does.of_bind_ok h
  obtain ⟨_, p₅, halter, h⟩ := Does.of_bind_ok h
  obtain ⟨_, p₆, hreport, h⟩ := Does.of_bind_ok h
  have hbefore : Steps workers p p₄ :=
    hscopes.steps.trans (hasked.steps.trans (hfiles.steps.trans hread.steps))
  -- What was asked before the directory was read does not matter here.
  obtain ⟨r, r', hr, hstep, happly, hr'⟩ := halter.of_alter
  obtain ⟨s, hs, hopen, hnew, -⟩ := ScopeTree.exportAll_eq_ok happly
  refine ⟨r, r', s, cs, hbefore.trans hr, hstep, hr'.trans (hreport.steps.trans h.steps), hs, hopen,
    h.of_pure, fun n hn => ?_, happly⟩
  rw [h.of_pure] at hn
  obtain ⟨c, hc, rfl⟩ := List.mem_map.mp hn
  exact hnew c hc

/-! ## 4. Locked scopes -/

/-- What one step does to what a scope exports: nothing, unless the scope is open before and after;
and then it only adds. -/
theorem Step.exports (h : Step workers p q) {id : Nat} {s' : Scope}
    (hs' : q.world.scopes.scope? id = some s') :
    (p.world.scopes.scope? id = none ∧ s'.exports = (∅, [])) ∨
      ∃ s, p.world.scopes.scope? id = some s ∧ (s'.exports = s.exports ∨
        s.locked = false ∧ s'.locked = false ∧ s.GrowsTo s') := by
  rcases h.scopes with he | ⟨call, he⟩
  · rw [he] at hs'
    exact .inr ⟨s', hs', .inl rfl⟩
  · rw [he] at hs'
    cases hs : p.world.scopes.scope? id with
    | none => exact .inl ⟨rfl, ScopeTree.fresh_after hs hs'⟩
    | some s =>
      refine .inr ⟨s, rfl, ?_⟩
      rcases ScopeTree.revised_after hs hs' with hrevised | ⟨hexports, -⟩
      · by_cases hsame : s'.exports = s.exports
        · exact .inl hsame
        · obtain ⟨hopen, hopen'⟩ := hrevised.open_of_ne hsame
          exact .inr ⟨hopen, hopen', hrevised.growsTo⟩
      · exact .inl hexports

/-- **A locked scope is frozen**, whatever jobs share the session and however they take turns.  A
scope that is locked is locked with the same exports later on, or gone for good.  Each step that
changes what a scope exports finds it open and leaves it open, and only adds: no class takes the
place of one that was exported before.  So whoever is told that a directory was exported exported it
at some moment when the scope was open, although it was asked for that long before. -/
theorem Steps.locked_stays_frozen (h : Steps workers p q) :
    (∀ id s, p.world.scopes.scope? id = some s → s.locked = true →
      q.world.scopes.Gone id ∨ ∃ s', q.world.scopes.scope? id = some s' ∧ s'.locked = true ∧
        s'.classes = s.classes ∧ s'.directories = s.directories) ∧
    (∀ id, p.world.scopes.Gone id → q.world.scopes.Gone id) ∧
    (∀ id s s', p.world.scopes.scope? id = some s → q.world.scopes.scope? id = some s' →
      (∀ (n : String) c, s.classes[n]? = some c → s'.classes[n]? = some c) ∧
        s.directories <+: s'.directories) ∧
    (∀ r r' : Pool α, Step workers r r' → ∀ id s', r'.world.scopes.scope? id = some s' →
      (r.world.scopes.scope? id = none ∧ s'.classes = ∅ ∧ s'.directories = []) ∨
      ∃ s, r.world.scopes.scope? id = some s ∧
        ((s'.classes = s.classes ∧ s'.directories = s.directories) ∨
          s.locked = false ∧ s'.locked = false ∧
          (∀ (n : String) c, s.classes[n]? = some c → s'.classes[n]? = some c) ∧
          s.directories <+: s'.directories)) ∧
    ∀ i id dir (f : Except ScopeError (List String) → α),
      (∀ j, (i, j) ∈ p.waiting ++ p.working → j = f <$> (exportDirectory id dir).run) →
      ∀ a, (i, a) ∈ q.finished → (i, a) ∉ p.finished → ∃ answer, a = f answer ∧
        ∀ names, answer = .ok names → ∃ r r' s cs,
          Steps workers p r ∧ Step workers r r' ∧ Steps workers r' q ∧
          r.world.scopes.scope? id = some s ∧ s.locked = false ∧
          names = cs.map CompiledClass.name ∧ (∀ n ∈ names, s.classes[n]? = none) ∧
          r.world.scopes.exportAll id dir cs = .ok r'.world.scopes := by
  obtain ⟨calls, hcalls⟩ := h.scopes
  refine ⟨fun id s hs hlocked => ?_, fun id hgone => hcalls ▸ hgone.afterAll calls,
    fun id s s' hs hs' => ?_, fun r r' hstep id s' hs' => ?_, fun i id dir f hj a ha hnew => ?_⟩
  · rw [hcalls]
    refine (ScopeTree.growsTo_afterAll hs calls).imp_right fun ⟨s', hs', hgrows⟩ => ?_
    have hexports := hgrows.frozen hlocked
    exact ⟨s', hs', hgrows.locked hlocked, congrArg Prod.fst hexports, congrArg Prod.snd hexports⟩
  · rw [hcalls] at hs'
    rcases ScopeTree.growsTo_afterAll hs calls with hgone | ⟨s'', hs'', hgrows⟩
    · rw [hgone.2] at hs'
      cases hs'
    · rw [hs''] at hs'
      cases hs'
      exact ⟨hgrows.classes, hgrows.directories⟩
  · rcases hstep.exports hs' with ⟨hnone, hexports⟩ | ⟨s, hs, hexports | ⟨hopen, hopen', hgrows⟩⟩
    · exact .inl ⟨hnone, congrArg Prod.fst hexports, congrArg Prod.snd hexports⟩
    · exact .inr ⟨s, hs, .inl ⟨congrArg Prod.fst hexports, congrArg Prod.snd hexports⟩⟩
    · exact .inr ⟨s, hs, .inr ⟨hopen, hopen', hgrows.classes, hgrows.directories⟩⟩
  · -- An answer that is new is that of a job, and a job with this number exports.
    rcases h.does ha with hold | ⟨j, hmem, hdoes⟩
    · exact absurd hold hnew
    · rw [hj j hmem] at hdoes
      obtain ⟨answer, q', rfl, hanswer, hlater⟩ := hdoes.of_map
      refine ⟨answer, rfl, fun names hok => ?_⟩
      rw [hok] at hanswer
      obtain ⟨r, r', s, cs, hr, hstep, hr', hfacts⟩ := hanswer.of_exportDirectory
      exact ⟨r, r', s, cs, hr, hstep, hr'.trans hlater, hfacts⟩

/-- A session of one scope, in an empty directory. -/
def session : World where
  files := .empty []
  scopes := .root "core"
  registered := []
  log := []
  now := .sinceEpoch 0

/-- A job that exports the directory of the session. -/
def exporting : Job (Except ScopeError (List String)) := (exportDirectory 0 ⟨"."⟩).run

/-- A job that locks its scope. -/
def locking : Job (Except ScopeError (List String)) :=
  .next (.alter (.lock 0)) fun _ => .done (.ok [])

/-- The session after it was exported to, and then also locked. -/
def exported : World := (exporting.run session).2

def locked : World := (Op.perform (.alter (.lock 0)) exported).2

theorem run_exporting : (exporting.run session).1 = .ok [] := by decide +kernel

/-- An export that asks before the scope is locked, and exports after. -/
theorem exists_rest_exporting : ∃ rest, exporting = .next .observe rest ∧
    ((rest exported).run locked).1 = .error (.locked "core" ScopeTree.exportingDirectory) :=
  ⟨_, rfl, by decide +kernel⟩

/-- The theorem for a scope that is exported to, and locked while somebody else is about to
export. -/
theorem locked_stays_frozen_race :
    let race := queue [(0, exporting), (1, exporting), (2, locking)] session
    ∃ q, Steps 2 race q ∧
      q.finished = [(0, .ok []), (2, .ok []),
        (1, .error (.locked "core" ScopeTree.exportingDirectory))] ∧
      ∃ r r' s cs, Steps 2 race r ∧ Step 2 r r' ∧ Steps 2 r' q ∧
        r.world.scopes.scope? 0 = some s ∧ s.locked = false ∧
        r.world.scopes.exportAll 0 ⟨"."⟩ cs = .ok r'.world.scopes := by
  intro race
  obtain ⟨rest, hasks, hrefused⟩ := exists_rest_exporting
  let one : List (Nat × Except ScopeError (List String)) := [(0, .ok [])]
  let two : List (Nat × Except ScopeError (List String)) := one ++ [(2, .ok [])]
  let three := two ++ [(1, .error (.locked "core" ScopeTree.exportingDirectory))]
  -- One export is over before the other begins.  That one asks, and the scope is locked before it
  -- goes on.
  have hfirst : Steps 2 race ⟨[(1, exporting), (2, locking)], [], one, exported⟩ := by
    refine .head (.turn (.start (by decide))) (Relation.ReflTransGen.trans
      (@steps_perform _ 2 _ [] [] [] 0 exporting session) (.single (.turn ?_)))
    rw [run_exporting]
    exact @Turn.finish _ 2 _ [] [] [] exported 0 (Except.ok [])
  have hasked : Steps 2 ⟨[(1, exporting), (2, locking)], [], one, exported⟩
      ⟨[(2, locking)], [(1, rest exported)], one, exported⟩ := by
    rw [hasks]
    exact .head (.turn (.start (by decide)))
      (.single (.turn (@Turn.perform _ 2 _ [] [] one exported 1 .observe rest)))
  have hlocked : Steps 2 ⟨[(2, locking)], [(1, rest exported)], one, exported⟩
      ⟨[], [(1, rest exported)], two, locked⟩ := by
    refine .head (.turn (.start (Nat.lt_succ_self 1))) (Relation.ReflTransGen.trans
      (@steps_perform _ 2 _ [] [(1, rest exported)] one 2 locking exported) (.single (.turn ?_)))
    exact @Turn.finish _ 2 _ [] [(1, rest exported)] one locked 2 (.ok [])
  have hlast : Steps 2 ⟨[], [(1, rest exported)], two, locked⟩
      ⟨[], [], three, ((rest exported).run locked).2⟩ := by
    refine Relation.ReflTransGen.trans (@steps_perform _ 2 _ [] [] two 1 (rest exported) locked)
      (.single (.turn ?_))
    rw [hrefused]
    exact @Turn.finish _ 2 _ [] [] two _ 1 _
  have hsteps := hfirst.trans (hasked.trans (hlocked.trans hlast))
  refine ⟨_, hsteps, rfl, ?_⟩
  obtain ⟨-, -, -, -, hexports⟩ := Steps.locked_stays_frozen hsteps
  have hjob : ∀ j, (0, j) ∈ race.waiting ++ race.working → j = id <$> exporting := by
    intro j hj
    rw [id_map]
    have hjobs : (0, j) ∈ [(0, exporting), (1, exporting), (2, locking)] := hj
    simpa using hjobs
  obtain ⟨_, rfl, hok⟩ :=
    hexports 0 0 ⟨"."⟩ id hjob (Except.ok []) List.mem_cons_self List.not_mem_nil
  obtain ⟨r, r', s, cs, hr, hstep, hr', hs, hopen, -, -, hexport⟩ := hok [] rfl
  exact ⟨r, r', s, cs, hr, hstep, hr', hs, hopen, hexport⟩

end Pool

end ScriptPlugins
