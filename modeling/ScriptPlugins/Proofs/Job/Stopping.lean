import ScriptPlugins.Proofs.Job.Preserving

/-!
# Stopping — what a job may leave behind when it is stopped

A job may be stopped before any of its operations, and halfway through writing a file.  A property
of the files withstands that if it holds at every such place.
-/

namespace ScriptPlugins

/-! ## 1. Where a job may stop -/

/-- What an operation may leave when it is stopped halfway: a file that is written may have got any
part of its bytes, from the first one on. -/
def Op.Tears : Op → World → World → Prop
  | .change (.writeFile p bytes), w, w' =>
    ∃ k, w' = (Op.perform (.change (.writeFile p (bytes.extract 0 k))) w).2
  | _, _, _ => False

/-- The worlds in which a job may have been stopped; one that is done may be stopped as well. -/
def Job.Stops {α : Type} : Job α → World → World → Prop
  | .done _, w, w' => w' = w
  | .next op rest, w, w' =>
    w' = w ∨ op.Tears w w' ∨ (rest (op.perform w).1).Stops (op.perform w).2 w'

namespace Job

variable {α β : Type} {j : Job α} {w w' : World}

/-- A job that is not stopped is done. -/
theorem stops_run (j : Job α) (w : World) : j.Stops w (j.run w).2 := by
  induction j generalizing w with
  | done a => rfl
  | next op rest ih => exact .inr (.inr (ih _ _))

/-- Of two jobs in turn, the first is stopped, or it is done and the second is stopped. -/
theorem stops_bind {f : α → Job β} (h : (j >>= f).Stops w w') :
    j.Stops w w' ∨ (f (j.run w).1).Stops (j.run w).2 w' := by
  induction j generalizing w with
  | done a => exact .inr h
  | next op rest ih =>
    rcases h with h | h | h
    · exact .inl (.inl h)
    · exact .inl (.inr (.inl h))
    · exact (ih _ h).imp (fun h => .inr (.inr h)) id

theorem LeavesFiles.files_stops (hj : j.LeavesFiles) (h : j.Stops w w') : w'.files = w.files := by
  induction j generalizing w with
  | done a => rw [show w' = w from h]
  | next op rest ih =>
    rcases h with rfl | h | h
    · rfl
    · cases op with
      | change c => cases hj.1
      | _ => exact h.elim
    · exact (ih _ (hj.2 _) h).trans (Op.files_perform hj.1 w)

/-- What every operation keeps, a job keeps that is stopped. -/
theorem keeps_stops {P : World → Prop} (hop : ∀ (op : Op) w, P w → P (op.perform w).2) (hw : P w)
    (h : j.Stops w w') : P w' := by
  induction j generalizing w with
  | done a =>
    rw [show w' = w from h]
    exact hw
  | next op rest ih =>
    rcases h with rfl | h | h
    · exact hw
    · cases op with
      | change c =>
        cases c with
        | writeFile p bytes =>
          obtain ⟨k, rfl⟩ := h
          exact hop _ _ hw
        | _ => exact h.elim
      | _ => exact h.elim
    · exact ih _ (hop op w hw) h

/-- Being stopped does not turn the clock. -/
theorem now_stops (h : j.Stops w w') : w'.now = w.now :=
  keeps_stops (P := fun w' => w'.now = w.now)
    (fun op w' hw => (Op.now_perform op w').trans hw) rfl h

/-- Neither does running to the end. -/
theorem now_run (j : Job α) (w : World) : (j.run w).2.now = w.now := now_stops (stops_run j w)

/-- Runs a job for some operations.  A file that would be written next has got some bytes then. -/
def stoppedAt : Job α → Nat → Nat → World → World
  | done _, _, _, w => w
  | next (.change (.writeFile p bytes)) _, 0, k, w =>
    (Op.perform (.change (.writeFile p (bytes.extract 0 k))) w).2
  | next _ _, 0, _, w => w
  | next op rest, n + 1, k, w => (rest (op.perform w).1).stoppedAt n k (op.perform w).2

theorem stops_stoppedAt (j : Job α) (n k : Nat) (w : World) : j.Stops w (j.stoppedAt n k w) := by
  fun_induction stoppedAt j n k w with
  | case1 => rfl
  | case2 p bytes rest k w => exact .inr (.inl ⟨k, rfl⟩)
  | case3 => exact .inl rfl
  | case4 k w op rest n ih => exact .inr (.inr ih)

end Job

/-! ## 2. What withstands -/

namespace Attempt

variable {ε δ α β : Type} {now : Instant} {I P : FileTree → Prop}

/-- An attempt, made at some time, that withstands being stopped: from files of some kind on, it
leaves files of another kind wherever it is stopped, and files as told if it answers. -/
structure Withstands (now : Instant) (I P : FileTree → Prop) (x : Attempt ε α)
    (Q : α → FileTree → Prop) : Prop where
  stops {w w' : World} (hnow : w.now = now) (hw : P w.files) (h : x.run.Stops w w') : I w'.files
  answers {w w' : World} {a : α} (hnow : w.now = now) (hw : P w.files)
    (h : Job.run x.run w = (.ok a, w')) : Q a w'.files

variable {Q : α → FileTree → Prop} {R : β → FileTree → Prop}

theorem now_run {x : Attempt ε α} {w w' : World} {r : Except ε α}
    (h : Job.run x.run w = (r, w')) : w'.now = w.now := by
  have hnow := Job.now_run x.run w
  rwa [h] at hnow

theorem Withstands.imp {P' : FileTree → Prop} {Q' : α → FileTree → Prop} {x : Attempt ε α}
    (h : Withstands now I P x Q) (hp : ∀ t, P' t → P t) (hq : ∀ a t, Q a t → Q' a t) :
    Withstands now I P' x Q' :=
  ⟨fun hnow hw hs => h.stops hnow (hp _ hw) hs,
    fun hnow hw hr => hq _ _ (h.answers hnow (hp _ hw) hr)⟩

/-- What does not depend on the files is known from then on. -/
theorem Withstands.known {p : Prop} {x : Attempt ε α} (h : p → Withstands now I P x Q) :
    Withstands now I (fun t => p ∧ P t) x Q :=
  ⟨fun hnow hw hs => (h hw.1).stops hnow hw.2 hs,
    fun hnow hw hr => (h hw.1).answers hnow hw.2 hr⟩

/-- One after the other. -/
theorem Withstands.bind {x : Attempt ε α} {f : α → Attempt ε β} (hx : Withstands now I P x Q)
    (hf : ∀ a, Withstands now I (Q a) (f a) R) : Withstands now I P (x >>= f) R := by
  constructor
  · intro w w' hnow hw h
    rcases Job.stops_bind (j := x.run) (f := ExceptT.bindCont f) h with h | h
    · exact hx.stops hnow hw h
    · cases hr : Job.run x.run w with
      | mk r w₁ =>
        rw [hr] at h
        cases r with
        | error e =>
          have hs := Job.stops_run x.run w
          rw [hr] at hs
          exact hx.stops hnow hw ((show w' = w₁ from h) ▸ hs)
        | ok a => exact (hf a).stops ((now_run hr).trans hnow) (hx.answers hnow hw hr) h
  · intro w w' b hnow hw h
    cases hr : Job.run x.run w with
    | mk r w₁ =>
      cases r with
      | error e =>
        rw [run_bind_error hr] at h
        cases h
      | ok a =>
        rw [run_bind_ok hr] at h
        exact (hf a).answers ((now_run hr).trans hnow) (hx.answers hnow hw hr) h

theorem Withstands.adapt {f : δ → ε} {x : Attempt δ α} (hx : Withstands now I P x Q) :
    Withstands now I P (Attempt.adapt f x) Q := by
  constructor
  · intro w w' hnow hw h
    rcases Job.stops_bind (j := x.run) h with h | h
    · exact hx.stops hnow hw h
    · exact hx.stops hnow hw ((show w' = _ from h) ▸ Job.stops_run x.run w)
  · intro w w' a hnow hw h
    cases hr : Job.run x.run w with
    | mk r w₁ =>
      rw [run_adapt hr] at h
      cases r with
      | error e => cases h
      | ok a' =>
        cases h
        exact hx.answers hnow hw hr

theorem Withstands.map {f : α → β} {x : Attempt ε α}
    (hx : Withstands now I P x fun a t => R (f a) t) : Withstands now I P (f <$> x) R := by
  constructor
  · intro w w' hnow hw h
    rcases Job.stops_bind (j := x.run) h with h | h
    · exact hx.stops hnow hw h
    · have hdone : w' = (Job.run x.run w).2 := by
        cases hr : (Job.run x.run w).1 with
        | ok a => rw [hr] at h; exact h
        | error e => rw [hr] at h; exact h
      exact hx.stops hnow hw (hdone ▸ Job.stops_run x.run w)
  · intro w w' b hnow hw h
    have hbind := h
    change Job.run (x.run >>= _) w = _ at hbind
    rw [Job.run_bind] at hbind
    cases hr : Job.run x.run w with
    | mk r w₁ =>
      rw [hr] at hbind
      cases r with
      | error e => cases hbind
      | ok a =>
        cases hbind
        exact hx.answers hnow hw hr

theorem Withstands.discard {P' : FileTree → Prop} {x : Attempt ε α}
    (hx : Withstands now I P x fun _ => P') :
    Withstands now I P (Functor.discard x : Attempt ε Unit) fun _ => P' :=
  Withstands.map (R := fun _ => P') hx

/-- What changes no file leaves what was there. -/
theorem LeavesFiles.withstands {x : Attempt ε α} (hx : LeavesFiles x) (hi : ∀ t, P t → I t) :
    Withstands now I P x fun _ => P := by
  constructor
  · intro w w' _ hw h
    rw [Job.LeavesFiles.files_stops hx h]
    exact hi _ hw
  · intro w w' a _ hw h
    have hs := Job.stops_run x.run w
    rw [h] at hs
    rw [Job.LeavesFiles.files_stops hx hs]
    exact hw

theorem Withstands.pure (a : α) (hi : ∀ t, P t → I t) :
    Withstands now I P (Pure.pure a : Attempt ε α) fun _ => P := LeavesFiles.withstands (.pure a) hi

theorem Withstands.throw (e : ε) (hi : ∀ t, P t → I t) :
    Withstands now I P (MonadExcept.throw e : Attempt ε α) Q := by
  constructor
  · intro w w' _ hw h
    exact hi _ ((show w' = w from h) ▸ hw)
  · intro w w' a _ hw h
    cases h

/-- What is known already. -/
theorem Withstands.of {x : Except ε α} (hi : ∀ t, P t → I t) :
    Withstands now I P (Attempt.of x) fun a t => x = .ok a ∧ P t := by
  constructor
  · intro w w' _ hw h
    exact hi _ ((show w' = w from h) ▸ hw)
  · intro w w' a _ hw h
    cases h
    exact ⟨rfl, hw⟩

/-- Looking at the clock. -/
theorem Withstands.observe (hi : ∀ t, P t → I t) : Withstands now I P
    (Attempt.observe : Attempt ε World) fun seen t => seen.now = now ∧ P t := by
  constructor
  · intro w w' _ hw h
    rw [Job.LeavesFiles.files_stops (LeavesFiles.perform rfl) h]
    exact hi _ hw
  · intro w w' a hnow hw h
    cases h
    exact ⟨hnow, hw⟩

/-- Looking at the files. -/
theorem Withstands.files (hi : ∀ t, P t → I t) :
    Withstands now I P (Attempt.files : Attempt ε FileTree) fun seen t => t = seen ∧ P t := by
  constructor
  · intro w w' _ hw h
    rw [Job.LeavesFiles.files_stops LeavesFiles.files h]
    exact hi _ hw
  · intro w w' a _ hw h
    cases h
    exact ⟨rfl, hw⟩

/-- A change of the files that is made as a whole. -/
theorem Withstands.change {c : FileChange} {refused : FileError → ε} {P' : FileTree → Prop}
    (hc : ∀ w w', ¬(Op.change c).Tears w w') (hi : ∀ t, P t → I t)
    (h : ∀ t, P t → ∃ reply t', t.apply c = (reply, t') ∧ I t' ∧ (reply = .ok () → P' t')) :
    Withstands now I P (Attempt.change refused c) fun _ => P' := by
  constructor
  · intro w w' _ hw hs
    obtain ⟨reply, t', ht, hi', -⟩ := h _ hw
    rcases hs with rfl | hs | hs
    · exact hi _ hw
    · exact absurd hs (hc w w')
    · rw [show w' = _ from hs]
      show I (w.files.apply c).2
      rw [ht]
      exact hi'
  · intro w w' a _ hw hr
    obtain ⟨reply, t', ht, -, hq⟩ := h _ hw
    rw [run_change ht] at hr
    cases reply with
    | error e => cases hr
    | ok u =>
      cases hr
      exact hq rfl

/-- A file that is written, in part or as a whole. -/
theorem Withstands.writeFile {p : Path} {bytes : ByteArray} {refused : FileError → ε}
    {P' : FileTree → Prop} (hi : ∀ t, P t → I t)
    (htorn : ∀ t, P t → ∀ k, ∃ t', t.writeFile p (bytes.extract 0 k) = .ok t' ∧ I t')
    (hwhole : ∀ t, P t → ∃ t', t.writeFile p bytes = .ok t' ∧ P' t') :
    Withstands now I P (Attempt.change refused (.writeFile p bytes)) fun _ => P' := by
  constructor
  · intro w w' _ hw hs
    have hfile (k : Nat) : I (w.files.apply (.writeFile p (bytes.extract 0 k))).2 := by
      obtain ⟨t', ht', hi'⟩ := htorn _ hw k
      rw [FileTree.apply_writeFile ht']
      exact hi'
    rcases hs with rfl | ⟨k, rfl⟩ | hs
    · exact hi _ hw
    · exact hfile k
    · rw [show w' = _ from hs]
      -- A file that is written as a whole has got all its bytes.
      have hall := hfile bytes.size
      rwa [ByteArray.extract_zero_size] at hall
  · intro w w' a _ hw hr
    obtain ⟨t', ht', hq⟩ := hwhole _ hw
    rw [run_change (FileTree.apply_writeFile ht')] at hr
    cases hr
    exact hq

end Attempt

end ScriptPlugins
