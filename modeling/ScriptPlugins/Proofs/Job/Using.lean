import ScriptPlugins.Proofs.Job.Pools
import ScriptPlugins.Proofs.Job.Preserving

/-!
# Using — jobs that only have operations of some kind

Which operations a job may come to is told by the job alone, for all replies.  So whatever each
operation of a kind keeps, a job keeps that has no other operations, when it runs alone and in a
pool together with others of its kind.
-/

namespace ScriptPlugins

variable {ε δ α β γ : Type} {P : Op → Prop} {I : World → Prop}

/-! ## 1. Jobs -/

namespace Job

/-- A job all of whose operations are of one kind, whatever is replied to those before. -/
def Uses (P : Op → Prop) : Job α → Prop
  | .done _ => True
  | .next op rest => P op ∧ ∀ r, (rest r).Uses P

namespace Uses

theorem bind {j : Job α} {f : α → Job β} (hj : j.Uses P) (hf : ∀ a, (f a).Uses P) :
    (j >>= f).Uses P := by
  induction j with
  | done a => exact hf a
  | next op rest ih => exact ⟨hj.1, fun r => ih r (hj.2 r)⟩

/-- What every operation of the kind keeps, the job keeps. -/
theorem keeps {j : Job α} (hj : j.Uses P) (hop : ∀ op w, P op → I w → I (op.perform w).2)
    {w : World} (h : I w) : I (j.run w).2 := by
  induction j generalizing w with
  | done a => exact h
  | next op rest ih => exact ih _ (hj.2 _) (hop op w hj.1 h)

end Uses

end Job

/-! ## 2. Attempts -/

namespace Attempt

/-- An attempt all of whose operations are of one kind. -/
def Uses (P : Op → Prop) (x : Attempt ε α) : Prop := Job.Uses P x.run

namespace Uses

theorem of (x : Except ε α) : Uses P (Attempt.of x) := trivial

theorem pure (a : α) : Uses P (Pure.pure a : Attempt ε α) := trivial

theorem throw (e : ε) : Uses P (MonadExcept.throw e : Attempt ε α) := trivial

theorem bind {x : Attempt ε α} {f : α → Attempt ε β} (hx : Uses P x) (hf : ∀ a, Uses P (f a)) :
    Uses P (x >>= f) :=
  Job.Uses.bind hx fun r => by
    cases r with
    | ok a => exact hf a
    | error e => trivial

theorem map {f : α → β} {x : Attempt ε α} (hx : Uses P x) : Uses P (f <$> x) :=
  Job.Uses.bind hx fun r => by cases r <;> trivial

theorem adapt {f : δ → ε} {x : Attempt δ α} (hx : Uses P x) : Uses P (Attempt.adapt f x) :=
  Job.Uses.bind hx fun _ => trivial

theorem outcome {x : Attempt δ α} (hx : Uses P x) :
    Uses P (Attempt.outcome x : Attempt ε (Except δ α)) :=
  Job.Uses.bind hx fun _ => trivial

theorem perform {op : Op} (hop : P op) : Uses P (Attempt.perform op : Attempt ε op.Reply) :=
  ⟨hop, fun _ => trivial⟩

theorem change {c : FileChange} (hop : P (.change c)) (refused : FileError → ε) :
    Uses P (Attempt.change refused c) := ⟨hop, fun _ => trivial⟩

theorem alter {c : ScopeTree.Change} (hop : P (.alter c)) (refused : ScopeError → ε) :
    Uses P (Attempt.alter refused c) := ⟨hop, fun _ => trivial⟩

theorem mapM {f : γ → Attempt ε β} {xs : List γ} (hf : ∀ x ∈ xs, Uses P (f x)) :
    Uses P (xs.mapM f) := by
  induction xs with
  | nil => exact pure []
  | cons x xs ih =>
    rw [List.mapM_cons]
    exact (hf x List.mem_cons_self).bind fun _ =>
      (ih fun y hy => hf y (List.mem_cons_of_mem x hy)).bind fun _ => pure _

theorem forIn {xs : List γ} {f : γ → β → Attempt ε (ForInStep β)}
    (hf : ∀ x b, Uses P (f x b)) (b : β) : Uses P (ForIn.forIn xs b f) := by
  induction xs generalizing b with
  | nil => exact pure b
  | cons x xs ih =>
    rw [List.forIn_cons]
    refine (hf x b).bind fun step => ?_
    cases step with
    | done b => exact pure b
    | yield b => exact ih b

end Uses

end Attempt

/-! ## 3. Pools -/

namespace Pool

variable {workers : Nat} {p q : Pool α}

/-- What every operation of the kind keeps is kept by workers whose jobs have no others, whatever
the schedule. -/
theorem Steps.keeps (hs : Steps workers p q) (hop : ∀ op w, P op → I w → I (op.perform w).2)
    (htick : ∀ w now, I w → I { w with now }) (hjobs : ∀ j ∈ p.jobs, j.2.Uses P) (h : I p.world) :
    I q.world := by
  have hinvariant : Invariant fun (jobs : List (Nat × Job α)) w => I w ∧
      ∀ j ∈ jobs, j.2.Uses P := by
    refine ⟨fun hperm hjobs => ⟨hjobs.1, fun j hj => hjobs.2 j (hperm.subset hj)⟩,
      fun now _ hjobs => ⟨htick _ now hjobs.1, hjobs.2⟩, fun {before after i op rest w} hjobs => ?_⟩
    obtain ⟨hkind, huses⟩ := hjobs.2 (i, .next op rest) (by simp)
    refine ⟨hop op w hkind hjobs.1, fun j hj => ?_⟩
    rcases List.mem_cons.mp (List.perm_middle.mem_iff.mp hj) with rfl | hj'
    · exact huses _
    · exact hjobs.2 j (List.perm_middle.mem_iff.mpr (List.mem_cons_of_mem _ hj'))
  exact (hs.invariant hinvariant ⟨h, hjobs⟩).1

end Pool

end ScriptPlugins
