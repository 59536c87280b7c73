import Mathlib.Logic.Relation
import ScriptPlugins.Job.Basic

/-!
# Pools — jobs that some workers do together

Jobs wait in a queue until a worker is free.  The workers take turns in any order, and a turn is one
operation of one job.  Time passes as it likes.
-/

namespace ScriptPlugins

/-- Numbered jobs that wait, those that workers are at, the answers so far, and the world that they
share. -/
structure Pool (α : Type) where
  waiting : List (Nat × Job α)
  working : List (Nat × Job α)
  finished : List (Nat × α)
  world : World

namespace Pool

variable {α : Type}

/-- A pool whose jobs all wait. -/
def queue (jobs : List (Nat × Job α)) (w : World) : Pool α := ⟨jobs, [], [], w⟩

/-- Whether there is nothing left to do. -/
def IsOver (p : Pool α) : Prop := p.waiting = [] ∧ p.working = []

/-- One turn of some workers. -/
inductive Turn (workers : Nat) : Pool α → Pool α → Prop
  | start {j : Nat × Job α} {waiting working : List (Nat × Job α)} {finished : List (Nat × α)}
      {w : World} (h : working.length < workers) :
      Turn workers ⟨j :: waiting, working, finished, w⟩ ⟨waiting, j :: working, finished, w⟩
  | perform {waiting before after : List (Nat × Job α)} {finished : List (Nat × α)} {w : World}
      (i : Nat) (op : Op) (rest : op.Reply → Job α) :
      Turn workers ⟨waiting, before ++ (i, .next op rest) :: after, finished, w⟩
        ⟨waiting, before ++ (i, rest (op.perform w).1) :: after, finished, (op.perform w).2⟩
  | finish {waiting before after : List (Nat × Job α)} {finished : List (Nat × α)} {w : World}
      (i : Nat) (a : α) :
      Turn workers ⟨waiting, before ++ (i, .done a) :: after, finished, w⟩
        ⟨waiting, before ++ after, finished ++ [(i, a)], w⟩

/-- What may come next: a turn, or a later time. -/
inductive Step (workers : Nat) : Pool α → Pool α → Prop
  | turn {p q : Pool α} (h : Turn workers p q) : Step workers p q
  | tick {p : Pool α} (now : Instant) (h : now.valid = true) :
      Step workers p { p with world := { p.world with now } }

/-- What some workers may have made of a pool. -/
abbrev Steps (workers : Nat) : Pool α → Pool α → Prop := Relation.ReflTransGen (Step workers)

end Pool

end ScriptPlugins
