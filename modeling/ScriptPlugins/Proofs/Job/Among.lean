import ScriptPlugins.Proofs.Job.Pools

/-!
# Among others — jobs that each have a part of a divided world

A world may be divided into parts in many ways; all that matters is what it means to change nothing
but some of them.  A job that has a part changes nothing else, and what it relies on stays as long
as the others leave its part alone.  So whatever each job ends with among others, it ends with in a
pool.
-/

namespace ScriptPlugins

variable {κ α β ε δ : Type}

/-- What it means that a change of the world keeps to some parts of it.  Time belongs to nobody. -/
structure Division (κ : Type) where
  keeps : Set κ → World → World → Prop
  refl : ∀ S w, keeps S w w
  trans : ∀ {S w w' w''}, keeps S w w' → keeps S w' w'' → keeps S w w''
  mono : ∀ {S S' w w'}, S ⊆ S' → keeps S w w' → keeps S' w w'
  tick : ∀ S w now, keeps S w { w with now }

/-- A property that nobody can undo who leaves some parts alone. -/
def Division.Stable (d : Division κ) (S : Set κ) (J : World → Prop) : Prop :=
  ∀ w w', J w → d.keeps Sᶜ w w' → J w'

/-- What changes no part at all leaves such a property. -/
theorem Division.Stable.of_keeps_nothing {d : Division κ} {S : Set κ} {J : World → Prop}
    (h : d.Stable S J) {w w' : World} (hw : J w) (hk : d.keeps ∅ w w') : J w' :=
  h w w' hw (d.mono (Set.empty_subset _) hk)

/-! ## 1. Jobs -/

namespace Job

/-- A job that has some parts: from a world on, whatever the others do in between, it keeps to them
and ends as told. -/
def Among (d : Division κ) (S : Set κ) (Q : α → World → Prop) : Job α → World → Prop
  | .done a, w => ∀ w', d.keeps Sᶜ w w' → Q a w'
  | .next op rest, w => ∀ w', d.keeps Sᶜ w w' →
      d.keeps S w' (op.perform w').2 ∧ Among d S Q (rest (op.perform w').1) (op.perform w').2

namespace Among

variable {d : Division κ} {S : Set κ} {Q R : α → World → Prop} {j : Job α} {w w' : World}

theorem stays (h : j.Among d S Q w) (hw : d.keeps Sᶜ w w') : j.Among d S Q w' := by
  cases j with
  | done a => exact fun w'' h' => h w'' (d.trans hw h')
  | next op rest => exact fun w'' h' => h w'' (d.trans hw h')

theorem imp (h : j.Among d S Q w) (hq : ∀ a w, Q a w → R a w) : j.Among d S R w := by
  induction j generalizing w with
  | done a => exact fun w' hw => hq a w' (h w' hw)
  | next op rest ih =>
    intro w' hw
    obtain ⟨hk, hr⟩ := h w' hw
    exact ⟨hk, ih _ hr⟩

theorem bind {f : α → Job β} {R : β → World → Prop} (h : j.Among d S Q w)
    (hf : ∀ a w, (∀ w', d.keeps Sᶜ w w' → Q a w') → (f a).Among d S R w) :
    (j >>= f).Among d S R w := by
  induction j generalizing w with
  | done a => exact hf a w h
  | next op rest ih =>
    intro w' hw
    obtain ⟨hk, hr⟩ := h w' hw
    exact ⟨hk, ih _ hr⟩

end Among

end Job

/-! ## 2. Attempts -/

namespace Attempt

variable {d : Division κ} {S : Set κ} {J : World → Prop} {w : World}

/-- After an answer comes what follows from it, and after a failure nothing. -/
theorem among_bind {x : Attempt ε α} {f : α → Attempt ε β} {P : Except ε α → World → Prop}
    {Q : Except ε β → World → Prop} (h : x.run.Among d S P w)
    (hok : ∀ a w, P (.ok a) w → (f a).run.Among d S Q w)
    (herror : ∀ e w, P (.error e) w → Q (.error e) w) : (x >>= f).run.Among d S Q w := by
  refine Job.Among.bind h fun r w hr => ?_
  cases r with
  | ok a => exact hok a w (hr w (d.refl ..))
  | error e => exact fun w' hw => herror e w' (hr w' hw)

/-- An attempt after which a property holds if it held before, whatever it answers. -/
def Heeds (d : Division κ) (S : Set κ) (J : World → Prop) (x : Attempt ε α) : Prop :=
  ∀ w, J w → x.run.Among d S (fun _ => J) w

namespace Heeds

theorem of (hJ : d.Stable S J) (x : Except ε α) : Heeds d S J (Attempt.of x) :=
  fun w hw w' hk => hJ w w' hw hk

theorem pure (hJ : d.Stable S J) (a : α) : Heeds d S J (Pure.pure a : Attempt ε α) := of hJ (.ok a)

theorem throw (hJ : d.Stable S J) (e : ε) :
    Heeds d S J (MonadExcept.throw e : Attempt ε α) := of hJ (.error e)

theorem bind {x : Attempt ε α} {f : α → Attempt ε β} (hx : Heeds d S J x)
    (hf : ∀ a, Heeds d S J (f a)) : Heeds d S J (x >>= f) := fun w hw =>
  among_bind (hx w hw) (fun a w => hf a w) fun _ _ h => h

theorem map {f : α → β} {x : Attempt ε α} (hx : Heeds d S J x) :
    Heeds d S J (f <$> x) := fun w hw =>
  Job.Among.bind (hx w hw) fun r _ hr => by cases r <;> exact hr

theorem adapt {f : δ → ε} {x : Attempt δ α} (hx : Heeds d S J x) :
    Heeds d S J (Attempt.adapt f x) :=
  fun w hw => Job.Among.bind (hx w hw) fun _ _ hr w' hw' => hr w' hw'

theorem outcome {x : Attempt δ α} (hx : Heeds d S J x) :
    Heeds d S J (Attempt.outcome x : Attempt ε (Except δ α)) :=
  fun w hw => Job.Among.bind (hx w hw) fun _ _ hr w' hw' => hr w' hw'

end Heeds

/-- One operation that changes no part, as far as a property tells. -/
theorem among_perform (hJ : d.Stable S J) {op : Op}
    (hop : ∀ w, J w → d.keeps ∅ w (op.perform w).2) (hw : J w) :
    (Job.perform op).Among d S (fun _ => J) w := by
  intro w' hk
  have hw' := hJ w w' hw hk
  exact ⟨d.mono (Set.empty_subset S) (hop w' hw'), fun w'' hk' =>
    hJ _ w'' (hJ.of_keeps_nothing hw' (hop w' hw')) hk'⟩

/-- It never fails. -/
theorem among_perform_isOk (hJ : d.Stable S J) {op : Op}
    (hop : ∀ w, J w → d.keeps ∅ w (op.perform w).2) (hw : J w) :
    (Attempt.perform op : Attempt ε op.Reply).run.Among d S (fun r w => r.isOk = true ∧ J w) w :=
  Job.Among.bind (among_perform hJ hop hw) fun _ _ hr w' hw' => ⟨rfl, hr w' hw'⟩

namespace Heeds

variable {op : Op}

theorem perform (hJ : d.Stable S J) (hop : ∀ w, J w → d.keeps ∅ w (op.perform w).2) :
    Heeds d S J (Attempt.perform op : Attempt ε op.Reply) := fun _ hw =>
  (among_perform_isOk hJ hop hw).imp fun _ _ h => h.2

theorem change (hJ : d.Stable S J) {c : FileChange} {refused : FileError → ε}
    (hop : ∀ w, J w → d.keeps ∅ w ((Op.change c).perform w).2) :
    Heeds d S J (Attempt.change refused c) := fun _ hw =>
  Job.Among.bind (among_perform hJ hop hw) fun _ _ hr w' hw' => hr w' hw'

theorem alter (hJ : d.Stable S J) {c : ScopeTree.Change} {refused : ScopeError → ε}
    (hop : ∀ w, J w → d.keeps ∅ w ((Op.alter c).perform w).2) :
    Heeds d S J (Attempt.alter refused c) := fun _ hw =>
  Job.Among.bind (among_perform hJ hop hw) fun _ _ hr w' hw' => hr w' hw'

end Heeds

end Attempt

/-! ## 3. Pools -/

namespace Pool

variable {workers : Nat} {q : Pool α} {d : Division κ} {S : Nat → Set κ}
  {Q : Nat → α → World → Prop} {ns : List Nat} {w₀ w : World} {jobs jobs' : List (Nat × Job α)}

variable (d S Q) in
/-- What is known of numbered jobs that share a world: each has its parts among the others, and
nothing else has changed. -/
structure Shared (ns : List Nat) (w₀ : World) (jobs : List (Nat × Job α)) (w : World) : Prop where
  numbers : (jobs.map Prod.fst).Perm ns
  keeps : d.keeps {x | ∃ i ∈ ns, x ∈ S i} w₀ w
  among : ∀ j ∈ jobs, j.2.Among d (S j.1) (Q j.1) w

theorem Shared.perm (h : Shared d S Q ns w₀ jobs w) (hp : jobs'.Perm jobs) :
    Shared d S Q ns w₀ jobs' w :=
  ⟨(hp.map _).trans h.numbers, h.keeps, fun j hj => h.among j (hp.subset hj)⟩

theorem Shared.tick (h : Shared d S Q ns w₀ jobs w) (now : Instant) :
    Shared d S Q ns w₀ jobs { w with now } :=
  ⟨h.numbers, d.trans h.keeps (d.tick ..), fun j hj => (h.among j hj).stays (d.tick ..)⟩

/-- One operation of one job is nothing to the others. -/
theorem Shared.perform (hS : ∀ i i', i ≠ i' → Disjoint (S i) (S i')) (hn : ns.Nodup)
    {before after : List (Nat × Job α)} {i : Nat} {op : Op} {rest : op.Reply → Job α}
    (h : Shared d S Q ns w₀ (before ++ (i, .next op rest) :: after) w) :
    Shared d S Q ns w₀ (before ++ (i, rest (op.perform w).1) :: after) (op.perform w).2 := by
  obtain ⟨hkeeps, hrest⟩ := h.among (i, .next op rest) (by simp) w (d.refl ..)
  have hmem : i ∈ ns := h.numbers.subset (by simp)
  have hnumbers : (before ++ (i, rest (op.perform w).1) :: after).map Prod.fst =
      (before ++ (i, .next op rest) :: after).map Prod.fst := by simp
  have hother {j : Nat × Job α} (hj : j ∈ before ++ after) : j.1 ≠ i :=
    ne_of_mem_others hn h.numbers hj
  refine ⟨hnumbers ▸ h.numbers, d.trans h.keeps (d.mono (fun x hx => ⟨i, hmem, hx⟩) hkeeps),
    fun j hj => ?_⟩
  rcases List.mem_cons.mp (List.perm_middle.mem_iff.mp hj) with rfl | hj'
  · exact hrest
  · -- The parts of another job are not among those that this operation may change.
    refine (h.among j ?_).stays (d.mono (fun x hx hx' => ?_) hkeeps)
    · exact List.perm_middle.mem_iff.mpr (List.mem_cons_of_mem _ hj')
    · exact Set.disjoint_left.mp (hS _ _ (hother hj')) hx' hx

theorem invariant_shared (hS : ∀ i i', i ≠ i' → Disjoint (S i) (S i')) (hn : ns.Nodup) :
    Invariant (Shared d S Q ns w₀) where
  perm hp h := h.perm hp
  tick now _ h := h.tick now
  perform h := h.perform hS hn

/-- **What becomes of jobs with parts of their own**, whatever the schedule: each is finished once,
ends as told, and nothing has changed but their parts. -/
theorem Steps.ended (hS : ∀ i i', i ≠ i' → Disjoint (S i) (S i')) (hn : (jobs.map Prod.fst).Nodup)
    (hamong : ∀ j ∈ jobs, j.2.Among d (S j.1) (Q j.1) w₀) (hs : Steps workers (queue jobs w₀) q)
    (hq : q.IsOver) :
    (q.finished.map Prod.fst).Perm (jobs.map Prod.fst) ∧
      d.keeps {x | ∃ i ∈ jobs.map Prod.fst, x ∈ S i} w₀ q.world ∧
      ∀ r ∈ q.finished, Q r.1 r.2 q.world := by
  have hstart : Shared d S Q (jobs.map Prod.fst) w₀ (queue jobs w₀).jobs w₀ :=
    ⟨by rw [jobs_queue], d.refl .., by rwa [jobs_queue]⟩
  obtain ⟨hnumbers, hkeeps, hends⟩ := hs.invariant (invariant_shared hS hn) hstart
  rw [hq.jobs] at hnumbers hends
  rw [List.map_map] at hnumbers
  exact ⟨hnumbers, hkeeps, fun r hr => hends _ (List.mem_map_of_mem hr) _ (d.refl ..)⟩

end Pool

end ScriptPlugins
