import Mathlib.Logic.Hydra
import Mathlib.Tactic.Abel
import ScriptPlugins.Job.Pool
import ScriptPlugins.Proofs.Job.Sharing

/-!
# Pools in order — every schedule ends, and no job is told apart by it

Workers never get stuck and never work for ever.  If jobs that have names of their own are all known
to end well among others, they do so in a pool, whatever the schedule.
-/

namespace ScriptPlugins

namespace Job

variable {α : Type}

instance : LawfulMonad Job := LawfulMonad.mk' Job
  (fun j => by
    induction j with
    | done a => rfl
    | next op rest ih => exact congrArg (next op) (funext ih))
  (fun _ _ => rfl)
  (fun j f g => by
    induction j with
    | done a => rfl
    | next op rest ih => exact congrArg (next op) (funext ih))

/-- What may become of a job in one operation. -/
def Follows (j' j : Job α) : Prop := ∃ op rest r, j = next op rest ∧ j' = rest r

theorem wellFounded_follows : WellFounded (Follows : Job α → Job α → Prop) := by
  refine ⟨fun j => ?_⟩
  induction j with
  | done a => exact ⟨_, fun j' ⟨_, _, _, h, _⟩ => nomatch h⟩
  | next op rest ih =>
    refine ⟨_, fun j' ⟨_, _, r, h, hr⟩ => ?_⟩
    cases h
    exact hr ▸ ih r

end Job

namespace Pool

variable {α : Type} {workers : Nat} {p q : Pool α}

/-! ## 1. Schedules end -/

/-- The jobs that are not handed in yet. -/
def pending (p : Pool α) : Multiset (Job α) := (p.waiting ++ p.working).map Prod.snd

theorem coe_middle (waiting before after : List (Nat × Job α)) (i : Nat) (j : Job α) :
    (((waiting ++ (before ++ (i, j) :: after)).map Prod.snd : List (Job α)) : Multiset (Job α)) =
      ((waiting ++ (before ++ after)).map Prod.snd : List (Job α)) + {j} := by
  rw [add_comm, Multiset.singleton_add, Multiset.cons_coe, Multiset.coe_eq_coe,
    ← List.append_assoc, ← List.append_assoc]
  exact List.perm_middle.map Prod.snd

/-- A turn starts a job, or takes one a step further. -/
theorem Turn.pending (h : Turn workers p q) :
    (q.pending = p.pending ∧ q.waiting.length < p.waiting.length) ∨
      Relation.CutExpand Job.Follows q.pending p.pending := by
  cases h with
  | @start j waiting working finished w hw =>
    refine .inl ⟨Multiset.coe_eq_coe.mpr (List.Perm.map _ ?_), Nat.lt_succ_self _⟩
    exact List.perm_middle
  | @perform waiting before after finished w i op rest =>
    right
    rw [Pool.pending, Pool.pending, coe_middle, coe_middle]
    exact Relation.cutExpand_add_single _ ⟨op, rest, _, rfl, rfl⟩
  | @finish waiting before after finished w i a =>
    right
    rw [Pool.pending, Pool.pending, coe_middle]
    have hcut := (Relation.cutExpand_add_left (r := Job.Follows) (t := 0) (u := {Job.done a})
      ((waiting ++ (before ++ after)).map Prod.snd : List (Job α))).mpr
      (Relation.cutExpand_singleton fun _ h => absurd h (Multiset.notMem_zero _))
    rwa [add_zero] at hcut

/-- **Workers never work for ever**: no schedule has infinitely many turns. -/
theorem wellFounded_turn : WellFounded fun q p : Pool α => Turn workers p q := by
  refine Subrelation.wf (r := InvImage (Prod.Lex (Relation.CutExpand Job.Follows) (· < ·))
    fun p => (p.pending, p.waiting.length)) (fun {q p} h => ?_)
    (InvImage.wf _ (Job.wellFounded_follows.cutExpand.prod_lex Nat.lt_wfRel.wf))
  rcases h.pending with ⟨hp, hw⟩ | hp
  · rw [InvImage, hp]
    exact .right _ hw
  · exact .left _ _ hp

/-- As long as there is something to do, some worker has a turn. -/
theorem exists_turn (hw : 0 < workers) (h : ¬p.IsOver) : ∃ q, Turn workers p q := by
  obtain ⟨waiting, working, finished, w⟩ := p
  cases working with
  | cons j working =>
    obtain ⟨i, j⟩ := j
    cases j with
    | done a => exact ⟨_, @Turn.finish α workers waiting [] working finished w i a⟩
    | next op rest => exact ⟨_, @Turn.perform α workers waiting [] working finished w i op rest⟩
  | nil =>
    cases waiting with
    | cons j waiting => exact ⟨_, .start hw⟩
    | nil => exact absurd ⟨rfl, rfl⟩ h

/-- **Workers never get stuck**: every schedule can be brought to an end. -/
theorem exists_over (hw : 0 < workers) (p : Pool α) : ∃ q, Steps workers p q ∧ q.IsOver := by
  have hwf : WellFounded fun q p : Pool α => Turn workers p q := wellFounded_turn
  induction p using hwf.induction with
  | _ p ih =>
    by_cases hp : p.IsOver
    · exact ⟨p, .refl, hp⟩
    · obtain ⟨q, hq⟩ := exists_turn hw hp
      obtain ⟨r, hr, hover⟩ := ih q hq
      exact ⟨r, .head (.turn hq) hr, hover⟩

/-! ## 2. Jobs one after the other -/

theorem steps_perform {waiting before after : List (Nat × Job α)}
    {finished : List (Nat × α)} (i : Nat) (j : Job α) (w : World) :
    Steps workers ⟨waiting, before ++ (i, j) :: after, finished, w⟩
      ⟨waiting, before ++ (i, .done (j.run w).1) :: after, finished, (j.run w).2⟩ := by
  induction j generalizing w with
  | done a => exact .refl
  | next op rest ih => exact .head (.turn (.perform i op rest)) (ih _ _)

/-- Jobs that are done one after the other, each with its number. -/
def inTurn (jobs : List (Nat × Job α)) : Job (List (Nat × α)) :=
  jobs.mapM fun j => (j.1, ·) <$> j.2

theorem run_inTurn_cons (i : Nat) (j : Job α) (jobs : List (Nat × Job α)) (w : World) :
    (inTurn ((i, j) :: jobs)).run w =
      ((i, (j.run w).1) :: ((inTurn jobs).run (j.run w).2).1,
        ((inTurn jobs).run (j.run w).2).2) := by
  rw [inTurn, List.mapM_cons, map_eq_pure_bind]
  simp only [Job.run_bind, Job.run_pure, inTurn]

/-- One way to do all jobs is to do them one after the other. -/
theorem steps_inTurn (hw : 0 < workers) (jobs : List (Nat × Job α)) (finished : List (Nat × α))
    (w : World) :
    Steps workers ⟨jobs, [], finished, w⟩
      ⟨[], [], finished ++ ((inTurn jobs).run w).1, ((inTurn jobs).run w).2⟩ := by
  induction jobs generalizing finished w with
  | nil => rw [inTurn, List.mapM_nil, Job.run_pure, List.append_nil]
  | cons j jobs ih =>
    obtain ⟨i, j⟩ := j
    have hstart : Turn workers ⟨(i, j) :: jobs, [], finished, w⟩ ⟨jobs, [(i, j)], finished, w⟩ :=
      .start hw
    have hjob : Steps workers ⟨jobs, [(i, j)], finished, w⟩
        ⟨jobs, [(i, .done (j.run w).1)], finished, (j.run w).2⟩ :=
      @steps_perform α workers jobs [] [] finished i j w
    have hfinish : Turn workers ⟨jobs, [(i, .done (j.run w).1)], finished, (j.run w).2⟩
        ⟨jobs, [], finished ++ [(i, (j.run w).1)], (j.run w).2⟩ :=
      @Turn.finish α workers jobs [] [] finished (j.run w).2 i (j.run w).1
    have hrest := ih (finished ++ [(i, (j.run w).1)]) (j.run w).2
    rw [run_inTurn_cons]
    rw [List.append_assoc] at hrest
    exact .head (.turn hstart) (hjob.trans (.head (.turn hfinish) hrest))

/-! ## 3. Jobs with names of their own -/

/-- All jobs of a pool; one that is finished has only its answer left. -/
def jobs (p : Pool α) : List (Nat × Job α) :=
  p.waiting ++ (p.working ++ p.finished.map fun r => (r.1, .done r.2))

theorem jobs_queue (jobs : List (Nat × Job α)) (w : World) : (queue jobs w).jobs = jobs :=
  List.append_nil _

/-- A turn moves a job, or performs its next operation. -/
theorem Turn.jobs (h : Turn workers p q) :
    (q.jobs.Perm p.jobs ∧ q.world = p.world) ∨
      ∃ before after i op rest, p.jobs = before ++ (i, .next op rest) :: after ∧
        q.jobs = before ++ (i, rest (op.perform p.world).1) :: after ∧
        q.world = (op.perform p.world).2 := by
  cases h with
  | start hw => exact .inl ⟨List.perm_middle, rfl⟩
  | @perform waiting before after finished w i op rest =>
    refine .inr ⟨waiting ++ before, after ++ finished.map fun r => (r.1, .done r.2), i, op, rest,
      ?_, ?_, rfl⟩ <;> rw [Pool.jobs, List.append_assoc, List.append_assoc, List.cons_append]
  | @finish waiting before after finished w i a =>
    refine .inl ⟨List.Perm.append_left _ ?_, rfl⟩
    rw [List.map_append, List.map_cons, List.map_nil, List.append_assoc, List.append_assoc]
    refine List.Perm.append_left _ ?_
    rw [← List.append_assoc, List.cons_append]
    exact List.perm_append_singleton ..

/-- A pool that is over has only answers left. -/
theorem IsOver.jobs (h : p.IsOver) : p.jobs = p.finished.map fun r => (r.1, .done r.2) := by
  rw [Pool.jobs, h.1, h.2]
  rfl

/-- What is kept in whatever order the jobs stand, as time passes, and by each operation of each
job. -/
structure Invariant (I : List (Nat × Job α) → World → Prop) : Prop where
  perm : ∀ {jobs jobs' w}, jobs'.Perm jobs → I jobs w → I jobs' w
  tick : ∀ {jobs w} (now : Instant), now.valid = true → I jobs w → I jobs { w with now }
  perform : ∀ {before after i op rest w}, I (before ++ (i, .next op rest) :: after) w →
    I (before ++ (i, rest (op.perform w).1) :: after) (op.perform w).2

/-- **An invariant is kept by workers**, whatever the schedule. -/
theorem Steps.invariant {I : List (Nat × Job α) → World → Prop} (hI : Invariant I)
    (hs : Steps workers p q) (h : I p.jobs p.world) : I q.jobs q.world := by
  induction hs with
  | refl => exact h
  | tail _ hstep ih =>
    cases hstep with
    | tick now hnow => exact hI.tick now hnow ih
    | turn hturn =>
      rcases hturn.jobs with ⟨hperm, hw⟩ | ⟨before, after, i, op, rest, hp, hq, hw⟩
      · rw [hw]
        exact hI.perm hperm ih
      · rw [hp] at ih
        rw [hq, hw]
        exact hI.perform ih

/-- The other jobs have other numbers. -/
theorem ne_of_mem_others {ns : List Nat} (hn : ns.Nodup)
    {before after : List (Nat × Job α)} {i : Nat}
    {j : Job α} (h : ((before ++ (i, j) :: after).map Prod.fst).Perm ns) {k : Nat × Job α}
    (hk : k ∈ before ++ after) : k.1 ≠ i := by
  have hnodup := h.nodup_iff.mpr hn
  rw [List.map_append, List.map_cons, List.nodup_middle, List.nodup_cons,
    ← List.map_append] at hnodup
  exact fun he => hnodup.1 (List.mem_map.mpr ⟨k, hk, he⟩)

variable (o : Owning) (K : Nat → Set String) (Q : Nat → α → Owning.Tally → World → Prop)

/-- What is known of numbered jobs that share a world: each ends well among the others, and nothing
was changed or added but by them. -/
structure Attended (ns : List Nat) (w₀ : World) (jobs : List (Nat × Job α)) (w : World) :
    Prop where
  numbers : (jobs.map Prod.fst).Perm ns
  keeps : o.Keeps {n | ∃ i ∈ ns, n ∈ K i} w₀ w
  counts : ∃ counts : Nat → Owning.Tally, o.tally w = o.tally w₀ + (ns.map counts).sum ∧
    ∀ j ∈ jobs, o.Ends (K j.1) (Q j.1) j.2 (counts j.1) w

variable {o K Q} {ns : List Nat} {w₀ w : World} {jobs jobs' : List (Nat × Job α)}

theorem Attended.perm (h : Attended o K Q ns w₀ jobs w) (hp : jobs'.Perm jobs) :
    Attended o K Q ns w₀ jobs' w := by
  obtain ⟨counts, hsum, hends⟩ := h.counts
  exact ⟨(hp.map _).trans h.numbers, h.keeps, counts, hsum, fun j hj => hends j (hp.subset hj)⟩

/-- Time may pass. -/
theorem Attended.tick (h : Attended o K Q ns w₀ jobs w) (now : Instant)
    (hnow : now.valid = true) : Attended o K Q ns w₀ jobs { w with now } := by
  obtain ⟨counts, hsum, hends⟩ := h.counts
  have hk (K' : Set String) : o.Keeps K' w { w with now } :=
    ⟨.refl _ _, .refl _ _ _, List.prefix_rfl, fun _ => hnow⟩
  exact ⟨h.numbers, h.keeps.trans (hk _), counts, hsum, fun j hj => (hends j hj).stays (hk _)⟩

/-- What one of some numbers adds is added to the sum. -/
theorem sum_update {ns : List Nat} (hn : ns.Nodup) {i : Nat} (hi : i ∈ ns)
    (counts : Nat → Owning.Tally) (d : Owning.Tally) :
    (ns.map (Function.update counts i (counts i + d))).sum = (ns.map counts).sum + d := by
  obtain ⟨before, after, rfl⟩ := List.append_of_mem hi
  rw [List.nodup_middle, List.nodup_cons] at hn
  have hsame (ms : List Nat) (h : ∀ n ∈ ms, n ∈ before ++ after) :
      ms.map (Function.update counts i (counts i + d)) = ms.map counts :=
    List.map_congr_left fun n hm =>
      Function.update_of_ne (fun he => hn.1 (by rw [← he]; exact h n hm)) ..
  simp only [List.map_append, List.map_cons, List.sum_append, List.sum_cons, Function.update_self,
    hsame before fun n => List.mem_append_left _, hsame after fun n => List.mem_append_right _]
  abel

/-- One operation of one job leaves all of them in order. -/
theorem Attended.perform (hK : ∀ i i', i ≠ i' → Disjoint (K i) (K i')) (hn : ns.Nodup)
    {before after : List (Nat × Job α)} {i : Nat} {op : Op} {rest : op.Reply → Job α}
    (h : Attended o K Q ns w₀ (before ++ (i, .next op rest) :: after) w) :
    Attended o K Q ns w₀ (before ++ (i, rest (op.perform w).1) :: after) (op.perform w).2 := by
  obtain ⟨counts, hsum, hends⟩ := h.counts
  obtain ⟨hkeeps, d, hd, hrest⟩ := hends (i, .next op rest) (by simp) w (.refl ..)
  have hmem : i ∈ ns := h.numbers.subset (by simp)
  have hnumbers : (before ++ (i, rest (op.perform w).1) :: after).map Prod.fst =
      (before ++ (i, .next op rest) :: after).map Prod.fst := by simp
  have hother {j : Nat × Job α} (hj : j ∈ before ++ after) : j.1 ≠ i :=
    ne_of_mem_others hn h.numbers hj
  refine ⟨hnumbers ▸ h.numbers, h.keeps.trans (hkeeps.mono fun n hn => ⟨i, hmem, hn⟩),
    Function.update counts i (counts i + d), ?_, fun j hj => ?_⟩
  · rw [hd, hsum, sum_update hn hmem, add_assoc]
  · rcases List.mem_cons.mp (List.perm_middle.mem_iff.mp hj) with rfl | hj'
    · rw [Function.update_self]
      exact hrest
    · -- The names of another job are not among those that this operation may change.
      rw [Function.update_of_ne (hother hj')]
      refine (hends j ?_).stays (hkeeps.mono fun n hn hn' => ?_)
      · exact List.perm_middle.mem_iff.mpr (List.mem_cons_of_mem _ hj')
      · exact Set.disjoint_left.mp (hK _ _ (hother hj')) hn' hn

theorem invariant_attended (hK : ∀ i i', i ≠ i' → Disjoint (K i) (K i')) (hn : ns.Nodup) :
    Invariant (Attended o K Q ns w₀) where
  perm hp h := h.perm hp
  tick now hnow h := h.tick now hnow
  perform h := h.perform hK hn

/-- **What becomes of jobs with names of their own**, whatever the schedule: each is finished once,
and its answer and the world then are as told. -/
theorem Steps.finished (hK : ∀ i i', i ≠ i' → Disjoint (K i) (K i'))
    (hn : (jobs.map Prod.fst).Nodup) (hends : ∀ j ∈ jobs, o.Ends (K j.1) (Q j.1) j.2 0 w₀)
    (hs : Steps workers (queue jobs w₀) q) (hq : q.IsOver) :
    (q.finished.map Prod.fst).Perm (jobs.map Prod.fst) ∧
      o.Keeps {n | ∃ i ∈ jobs.map Prod.fst, n ∈ K i} w₀ q.world ∧
      ∃ counts : Nat → Owning.Tally,
        o.tally q.world = o.tally w₀ + ((jobs.map Prod.fst).map counts).sum ∧
        ∀ r ∈ q.finished, Q r.1 r.2 (counts r.1) q.world := by
  have hzero : ((jobs.map Prod.fst).map fun _ => (0 : Owning.Tally)).sum = 0 :=
    List.sum_eq_zero fun d hd => by
      obtain ⟨i, -, rfl⟩ := List.mem_map.mp hd
      rfl
  have hstart : Attended o K Q (jobs.map Prod.fst) w₀ (queue jobs w₀).jobs w₀ :=
    ⟨by rw [jobs_queue], .refl .., fun _ => 0, by rw [hzero, add_zero], by rwa [jobs_queue]⟩
  obtain ⟨hnumbers, hkeeps, counts, hsum, hends⟩ := hs.invariant (invariant_attended hK hn) hstart
  rw [hq.jobs] at hnumbers hends
  rw [List.map_map] at hnumbers
  exact ⟨hnumbers, hkeeps, counts, hsum, fun r hr =>
    hends _ (List.mem_map_of_mem hr) _ (.refl ..)⟩

end Pool

end ScriptPlugins
