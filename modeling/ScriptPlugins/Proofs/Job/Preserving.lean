import ScriptPlugins.Job.Scopes
import ScriptPlugins.Proofs.Scope.Trees

/-!
# Preserving — what jobs keep when they run alone

A job preserves what each of its operations preserves.  Most operations leave the files alone.
-/

namespace ScriptPlugins

/-- An operation that does not change the files. -/
def Op.leavesFiles : Op → Bool
  | .change _ => false
  | _ => true

theorem Op.files_perform {op : Op} (h : op.leavesFiles = true) (w : World) :
    (op.perform w).2.files = w.files := by
  cases op with
  | change c => cases h
  | observe => rfl
  | newScope parent name =>
    rw [Op.perform]
    split <;> rfl
  | alter c =>
    rw [Op.perform]
    split <;> rfl
  | openRegister => rfl
  | register dir => rfl
  | report e => rfl

theorem FileTree.apply_writeFile {t t' : FileTree} {p : Path} {bytes : ByteArray}
    (h : t.writeFile p bytes = .ok t') : t.apply (.writeFile p bytes) = (.ok (), t') := by
  rw [apply, h]
  rfl

theorem FileTree.writeFile_of_apply {t t' : FileTree} {p : Path} {bytes : ByteArray}
    (h : t.apply (.writeFile p bytes) = (.ok (), t')) : t.writeFile p bytes = .ok t' := by
  rw [apply] at h
  cases hwrite : t.writeFile p bytes with
  | error e =>
    rw [hwrite] at h
    cases h
  | ok t₁ =>
    rw [hwrite] at h
    cases h
    rfl

theorem Op.now_perform (op : Op) (w : World) : (op.perform w).2.now = w.now := by
  cases op with
  | change c => rfl
  | observe => rfl
  | newScope parent name =>
    rw [Op.perform]
    split <;> rfl
  | alter c =>
    rw [Op.perform]
    split <;> rfl
  | openRegister => rfl
  | register dir => rfl
  | report e => rfl

namespace Attempt

variable {P : World → Prop} {ε δ α β : Type}

/-! ## 1. Running alone -/

theorem run_bind_ok {x : Attempt ε α} {f : α → Attempt ε β} {w w' : World} {a : α}
    (h : Job.run x.run w = (.ok a, w')) : Job.run (x >>= f).run w = Job.run (f a).run w' := by
  show Job.run (x.run >>= ExceptT.bindCont f) w = _
  rw [Job.run_bind, h]
  rfl

theorem run_bind_error {x : Attempt ε α} {f : α → Attempt ε β} {w w' : World} {e : ε}
    (h : Job.run x.run w = (.error e, w')) : Job.run (x >>= f).run w = (.error e, w') := by
  show Job.run (x.run >>= ExceptT.bindCont f) w = _
  rw [Job.run_bind, h]
  rfl

/-- What is composed answers if both parts do. -/
theorem of_run_bind_ok {x : Attempt ε α} {f : α → Attempt ε β} {w w' : World} {b : β}
    (h : Job.run (x >>= f).run w = (.ok b, w')) :
    ∃ a w₁, Job.run x.run w = (.ok a, w₁) ∧ Job.run (f a).run w₁ = (.ok b, w') := by
  cases hx : Job.run x.run w with
  | mk r w₁ =>
    cases r with
    | error e =>
      rw [run_bind_error hx] at h
      cases h
    | ok a => exact ⟨a, w₁, rfl, run_bind_ok hx ▸ h⟩

/-- What is composed fails if one of its parts does. -/
theorem of_run_bind_error {x : Attempt ε α} {f : α → Attempt ε β} {w w' : World} {e : ε}
    (h : Job.run (x >>= f).run w = (.error e, w')) :
    Job.run x.run w = (.error e, w') ∨
      ∃ a w₁, Job.run x.run w = (.ok a, w₁) ∧ Job.run (f a).run w₁ = (.error e, w') := by
  cases hx : Job.run x.run w with
  | mk r w₁ =>
    cases r with
    | error e' =>
      rw [run_bind_error hx] at h
      cases h
      exact .inl rfl
    | ok a => exact .inr ⟨a, w₁, rfl, run_bind_ok hx ▸ h⟩

theorem run_observe (w : World) : Job.run (observe : Attempt ε World).run w = (.ok w, w) := rfl

theorem run_files (w : World) : Job.run (files : Attempt ε FileTree).run w = (.ok w.files, w) := rfl

theorem run_scopes (w : World) : Job.run (scopes : Attempt ε ScopeTree).run w = (.ok w.scopes, w) :=
  rfl

theorem run_of {x r : Except ε α} (h : x = r) (w : World) : Job.run (of x).run w = (r, w) := by
  rw [h]
  rfl

theorem run_change {w : World} {c : FileChange} {refused : FileError → ε}
    {reply : Except FileError Unit} {t : FileTree} (h : w.files.apply c = (reply, t)) :
    Job.run (Attempt.change refused c).run w = (reply.mapError refused, { w with files := t }) := by
  have hperform : Op.perform (.change c) w = (reply, { w with files := t }) := by
    rw [Op.perform, h]
  show (Except.mapError refused (Op.perform (.change c) w).1, (Op.perform (.change c) w).2) = _
  rw [hperform]

/-- A change of the files that was not refused was made. -/
theorem of_run_change {w w' : World} {c : FileChange} {refused : FileError → ε}
    (h : Job.run (Attempt.change refused c).run w = (.ok (), w')) :
    ∃ t, w.files.apply c = (.ok (), t) ∧ w' = { w with files := t } := by
  obtain ⟨reply, t, ht⟩ : ∃ reply t, w.files.apply c = (reply, t) := ⟨_, _, rfl⟩
  rw [run_change ht] at h
  obtain ⟨hreply, rfl⟩ := Prod.mk.inj h
  exact ⟨t, mapError_eq_ok hreply ▸ ht, rfl⟩

theorem run_lift {j : Job α} {w w' : World} {a : α} (h : j.run w = (a, w')) :
    Job.run (ExceptT.lift j : Attempt ε α).run w = (.ok a, w') := by
  show Job.run (j >>= fun a => Pure.pure (Except.ok a)) w = _
  rw [Job.run_bind, h]
  rfl

theorem run_newScope {w : World} {parent : Nat} {s : Scope}
    (h : w.scopes.scope? parent = some s) (name : String) :
    Job.run (Attempt.newScope parent name).run w = (.ok w.scopes.slots.length, { w with
      scopes := w.scopes.grown parent s name
      log := w.log ++ [.scopeCreated name parent] }) := by
  have hperform : Op.perform (.newScope parent name) w =
      (.ok w.scopes.slots.length, { w with scopes := w.scopes.grown parent s name }) := by
    rw [Op.perform, ScopeTree.newChild_eq_ok h]
  have hnew : Job.run (ExceptT.mk (Job.perform (.newScope parent name)) :
      Attempt ScopeError Nat).run w = (.ok w.scopes.slots.length,
        { w with scopes := w.scopes.grown parent s name }) := hperform
  rw [Attempt.newScope, run_bind_ok hnew]
  rfl

/-- Nothing is made below a scope that is gone. -/
theorem run_newScope_of_gone {w : World} {parent : Nat} (h : w.scopes.scope? parent = none)
    (name : String) :
      Job.run (Attempt.newScope parent name).run w = (.error (.released parent), w) := by
  have hperform : Op.perform (.newScope parent name) w = (.error (.released parent), w) := by
    rw [Op.perform, ScopeTree.newChild, ScopeTree.get, h]
    rfl
  have hnew : Job.run (ExceptT.mk (Job.perform (.newScope parent name)) :
      Attempt ScopeError Nat).run w = (.error (.released parent), w) := hperform
  rw [Attempt.newScope, run_bind_error hnew]

theorem run_adapt {f : δ → ε} {x : Attempt δ α} {w w' : World} {r : Except δ α}
    (h : Job.run x.run w = (r, w')) : Job.run (adapt f x).run w = (r.mapError f, w') := by
  show Job.run (x.run >>= fun r => Pure.pure (r.mapError f)) w = _
  rw [Job.run_bind, h]
  rfl

theorem of_run_adapt {f : δ → ε} {x : Attempt δ α} {w w' : World} {r : Except ε α}
    (h : Job.run (adapt f x).run w = (r, w')) :
    ∃ r', Job.run x.run w = (r', w') ∧ r = r'.mapError f := by
  obtain ⟨r', w₁, hx⟩ : ∃ r' w₁, Job.run x.run w = (r', w₁) := ⟨_, _, rfl⟩
  cases h.symm.trans (run_adapt hx)
  exact ⟨r', hx, rfl⟩

theorem run_alter {w : World} {refused : ScopeError → ε} {c : ScopeTree.Change} {t : ScopeTree}
    (h : w.scopes.apply c = .ok t) :
    Job.run (Attempt.alter refused c).run w = (.ok (), { w with scopes := t }) := by
  have hperform : Op.perform (.alter c) w = (.ok (), { w with scopes := t }) := by
    rw [Op.perform, h]
  show (Except.mapError refused (Op.perform (.alter c) w).1, (Op.perform (.alter c) w).2) = _
  rw [hperform]
  rfl

theorem run_alter_error {w : World} {refused : ScopeError → ε} {c : ScopeTree.Change}
    {e : ScopeError} (h : w.scopes.apply c = .error e) :
    Job.run (Attempt.alter refused c).run w = (.error (refused e), w) := by
  have hperform : Op.perform (.alter c) w = (.error e, w) := by
    rw [Op.perform, h]
  show (Except.mapError refused (Op.perform (.alter c) w).1, (Op.perform (.alter c) w).2) = _
  rw [hperform]
  rfl

/-- A live scope is locked.  Only that an open one is locked is reported. -/
theorem run_lockScope_of_live {w : World} {id : Nat} {s : Scope} (h : w.scopes.scope? id = some s) :
    Job.run (lockScope id).run w = (.ok (), { w with
      scopes := w.scopes.set id { s with locked := true }
      log := if s.locked then w.log else w.log ++ [.scopeLocked s.name] }) := by
  have hlock : w.scopes.apply (.lock id) = .ok (w.scopes.set id { s with locked := true }) := by
    rw [ScopeTree.apply, ScopeTree.lock, ScopeTree.modify, ScopeTree.get_of_scope? h]
    rfl
  rw [lockScope, run_bind_ok (run_scopes w), run_bind_ok (run_of (ScopeTree.get_of_scope? h) w),
    run_bind_ok (run_alter hlock)]
  cases s.locked <;> rfl

/-- An open scope is locked. -/
theorem run_lockScope {w : World} {id : Nat} {s : Scope} (h : w.scopes.scope? id = some s)
    (hopen : s.locked = false) :
    Job.run (lockScope id).run w = (.ok (), { w with
      scopes := w.scopes.set id { s with locked := true }
      log := w.log ++ [.scopeLocked s.name] }) := by
  rw [run_lockScope_of_live h, hopen]
  rfl

theorem run_lockScope_of_gone {w : World} {id : Nat} (h : w.scopes.scope? id = none) :
    Job.run (lockScope id).run w = (.error (.released id), w) := by
  have hget : w.scopes.get id = .error (.released id) := by
    rw [ScopeTree.get, h]
  rw [lockScope, run_bind_ok (run_scopes w), run_bind_error (run_of hget w)]

/-- A loop whose body only reports something and goes on. -/
theorem run_forIn_yield {γ : Type} {f : γ → β → Attempt ε (ForInStep β)} (next : β → γ → β)
    (told : γ → List Log.Event) (hf : ∀ x b w, Job.run (f x b).run w =
      (.ok (.yield (next b x)), { w with log := w.log ++ told x }))
    (xs : List γ) (b : β) (w : World) : Job.run (ForIn.forIn xs b f).run w =
      (.ok (xs.foldl next b), { w with log := w.log ++ xs.flatMap told }) := by
  induction xs generalizing b w with
  | nil => rw [List.flatMap_nil, List.append_nil]; rfl
  | cons x xs ih =>
    rw [List.forIn_cons, run_bind_ok (hf x b w), List.flatMap_cons, ← List.append_assoc]
    exact ih (next b x) { w with log := w.log ++ told x }

theorem run_forIn_report {γ : Type} (es : List γ) (event : γ → Log.Event) (w : World) :
    Job.run (ForIn.forIn es PUnit.unit fun e _ =>
      (do report (event e); return ForInStep.yield PUnit.unit : Attempt ε _)).run w =
      (.ok PUnit.unit, { w with log := w.log ++ es.map event }) := by
  rw [List.map_eq_flatMap]
  exact run_forIn_yield (fun u _ => u) (fun e => [event e]) (fun _ _ _ => rfl) es PUnit.unit w

/-- A live scope is released, and each scope that goes with it is reported. -/
theorem run_releaseScope {w : World} {id : Nat} {s : Scope} (h : w.scopes.scope? id = some s) :
    ∃ names t, w.scopes.release id = .ok (names, t) ∧
      Job.run (releaseScope id).run w = (.ok (), { w with
        scopes := t
        log := w.log ++ names.map .scopeReleased }) := by
  have hrelease := ScopeTree.release_eq h
  refine ⟨_, _, hrelease, ?_⟩
  generalize (w.scopes.disown s.parent id).tearDown [id] = torn at hrelease
  obtain ⟨names, t⟩ := torn
  have happly : w.scopes.apply (.release id) = .ok t := by
    rw [ScopeTree.apply, hrelease]
    rfl
  rw [releaseScope, run_bind_ok (run_scopes w), run_bind_ok (run_of hrelease w)]
  simp only
  rw [run_bind_ok (run_alter happly), run_bind_ok (run_forIn_report names .scopeReleased _)]
  rfl

theorem run_releaseScope_of_gone {w : World} {id : Nat} (h : w.scopes.scope? id = none) :
    Job.run (releaseScope id).run w = (.error (.released id), w) := by
  have hrelease : w.scopes.release id = .error (.released id) := by
    rw [ScopeTree.release, ScopeTree.get, h]
    rfl
  rw [releaseScope, run_bind_ok (run_scopes w), run_bind_error (run_of hrelease w)]

/-! ## 2. Leaving the files alone -/

end Attempt

/-- A job that changes no file, whatever is replied. -/
def Job.LeavesFiles {α : Type} : Job α → Prop
  | .done _ => True
  | .next op rest => op.leavesFiles = true ∧ ∀ r, (rest r).LeavesFiles

theorem Job.LeavesFiles.bind {α β : Type} {j : Job α} {f : α → Job β} (hj : j.LeavesFiles)
    (hf : ∀ a, (f a).LeavesFiles) : (j >>= f).LeavesFiles := by
  induction j with
  | done a => exact hf a
  | next op rest ih => exact ⟨hj.1, fun r => ih r (hj.2 r)⟩

namespace Attempt

/-- An attempt that changes no file. -/
def LeavesFiles (x : Attempt ε α) : Prop := Job.LeavesFiles x.run

namespace LeavesFiles

theorem pure (a : α) : LeavesFiles (Pure.pure a : Attempt ε α) := trivial

theorem of (x : Except ε α) : LeavesFiles (Attempt.of x) := trivial

theorem bind {x : Attempt ε α} {f : α → Attempt ε β} (hx : LeavesFiles x)
    (hf : ∀ a, LeavesFiles (f a)) : LeavesFiles (x >>= f) :=
  Job.LeavesFiles.bind hx fun r => by
    cases r with
    | ok a => exact hf a
    | error e => trivial

theorem map {f : α → β} {x : Attempt ε α} (hx : LeavesFiles x) : LeavesFiles (f <$> x) :=
  Job.LeavesFiles.bind hx fun r => by cases r <;> trivial

theorem adapt {f : δ → ε} {x : Attempt δ α} (hx : LeavesFiles x) :
    LeavesFiles (Attempt.adapt f x) :=
  Job.LeavesFiles.bind hx fun _ => trivial

theorem perform {op : Op} (hop : op.leavesFiles = true) :
    LeavesFiles (Attempt.perform op : Attempt ε op.Reply) := ⟨hop, fun _ => trivial⟩

theorem files : LeavesFiles (Attempt.files : Attempt ε FileTree) := map (perform rfl)

theorem scopes : LeavesFiles (Attempt.scopes : Attempt ε ScopeTree) := map (perform rfl)

theorem report (e : Log.Event) : LeavesFiles (Attempt.report e : Attempt ε PUnit) := perform rfl

theorem alter (refused : ScopeError → ε) (c : ScopeTree.Change) :
    LeavesFiles (Attempt.alter refused c) := ⟨rfl, fun _ => trivial⟩

theorem reuseScope (scope : Nat) : LeavesFiles (Attempt.reuseScope scope) :=
  (alter _ _).bind fun _ => scopes.bind fun _ => (of _).bind fun _ => report _

theorem forIn {γ : Type} (xs : List γ) (b : β) {f : γ → β → Attempt ε (ForInStep β)}
    (hf : ∀ x b, LeavesFiles (f x b)) : LeavesFiles (ForIn.forIn xs b f) := by
  induction xs generalizing b with
  | nil => exact pure b
  | cons x xs ih =>
    rw [List.forIn_cons]
    refine (hf x b).bind fun step => ?_
    cases step with
    | done b => exact pure b
    | yield b => exact ih b

end LeavesFiles

/-! ## 3. Preserving -/

/-- An attempt after which a property holds if it held before. -/
def Preserves (P : World → Prop) (x : Attempt ε α) : Prop :=
  ∀ w, P w → P (Job.run x.run w).2

/-- A property that only a change of the files can end. -/
def OfFiles (P : World → Prop) : Prop :=
  ∀ op w, Op.leavesFiles op = true → P w → P (op.perform w).2

/-- Where no file changes, such a property stays. -/
theorem LeavesFiles.preserves {x : Attempt ε α} (hx : LeavesFiles x) (hP : OfFiles P) :
    Preserves P x := by
  have hjob {γ : Type} (j : Job γ) (hj : j.LeavesFiles) (w : World) (h : P w) : P (j.run w).2 := by
    induction j generalizing w with
    | done a => exact h
    | next op rest ih => exact ih _ (hj.2 _) _ (hP op w hj.1 h)
  exact hjob x.run hx

theorem Preserves.pure (a : α) : Preserves P (Pure.pure a : Attempt ε α) := fun _ h => h

theorem Preserves.bind {x : Attempt ε α} {f : α → Attempt ε β} (hx : Preserves P x)
    (hf : ∀ a, Preserves P (f a)) : Preserves P (x >>= f) := by
  intro w h
  have h' := hx w h
  show P (Job.run (x.run >>= ExceptT.bindCont f) w).2
  rw [Job.run_bind]
  cases (Job.run x.run w).1 with
  | error e => exact h'
  | ok a => exact hf a _ h'

/-- What is said of the files alone. -/
theorem ofFiles (Q : FileTree → Prop) : OfFiles fun w => Q w.files := by
  intro op w hop h
  show Q (op.perform w).2.files
  rwa [Op.files_perform hop w]

end Attempt

end ScriptPlugins
