import ScriptPlugins.Job.Scopes
import ScriptPlugins.Proofs.Job.Sharing

/-!
# Attempts among others — jobs that surely answer, or surely fail

What a shared world holds for a job is *stable* if nothing that the others do can undo it.  From a
stable state an attempt is followed operation by operation; whether it answers is known beforehand.
-/

namespace ScriptPlugins.Owning

variable {o : Owning} {K : Set String} {w w' : World} {e : Tally} {ε δ α β : Type}

variable (o K) in
/-- An attempt that answers, with its answer, what it has added, and the world then. -/
def Answers (x : Attempt ε α) (e : Tally) (w : World) (P : α → Tally → World → Prop) : Prop :=
  o.Ends K (fun r e w => ∃ a, r = .ok a ∧ P a e w) x.run e w

variable (o K) in
/-- An attempt that fails, with the reason, what it has added, and the world then. -/
def Refuses (x : Attempt ε α) (e : Tally) (w : World) (P : ε → Tally → World → Prop) : Prop :=
  o.Ends K (fun r e w => ∃ err, r = .error err ∧ P err e w) x.run e w

/-! ## 1. One after the other -/

theorem Answers.imp {x : Attempt ε α} {P Q : α → Tally → World → Prop} (h : o.Answers K x e w P)
    (hp : ∀ a e w, P a e w → Q a e w) : o.Answers K x e w Q :=
  Ends.imp h fun _ _ _ ⟨a, ha, hq⟩ => ⟨a, ha, hp a _ _ hq⟩

theorem Refuses.imp {x : Attempt ε α} {P Q : ε → Tally → World → Prop} (h : o.Refuses K x e w P)
    (hp : ∀ err e w, P err e w → Q err e w) : o.Refuses K x e w Q :=
  Ends.imp h fun _ _ _ ⟨a, ha, hq⟩ => ⟨a, ha, hp a _ _ hq⟩

/-- After an answer comes what follows from it. -/
theorem Answers.andThen {x : Attempt ε α} {f : α → Attempt ε β} {P : α → Tally → World → Prop}
    {R : Except ε β → Tally → World → Prop} (h : o.Answers K x e w P)
    (hf : ∀ a e w, P a e w → o.Ends K R (f a).run e w) : o.Ends K R (x >>= f).run e w := by
  refine Ends.bind h fun r e w hr => ?_
  obtain ⟨a, rfl, hp⟩ := hr w (.refl ..)
  exact hf a e w hp

theorem Answers.bind {x : Attempt ε α} {f : α → Attempt ε β} {P : α → Tally → World → Prop}
    {Q : β → Tally → World → Prop} (h : o.Answers K x e w P)
    (hf : ∀ a e w, P a e w → o.Answers K (f a) e w Q) : o.Answers K (x >>= f) e w Q :=
  h.andThen hf

/-- After a failure comes nothing. -/
theorem Refuses.bind {x : Attempt ε α} {f : α → Attempt ε β} {P : ε → Tally → World → Prop}
    (h : o.Refuses K x e w P) : o.Refuses K (x >>= f) e w P := by
  refine Ends.bind h fun r e w hr => ?_
  obtain ⟨err, rfl, -⟩ := hr w (.refl ..)
  intro w' hw
  obtain ⟨err', he, hp⟩ := hr w' hw
  cases he
  exact ⟨err, rfl, hp⟩

theorem Answers.pure {a : α} {P : α → Tally → World → Prop}
    (h : ∀ w', o.Keeps Kᶜ w w' → P a e w') : o.Answers K (Pure.pure a : Attempt ε α) e w P :=
  fun w' hw => ⟨a, rfl, h w' hw⟩

theorem Answers.of {x : Except ε α} {a : α} {P : α → Tally → World → Prop} (hx : x = .ok a)
    (h : ∀ w', o.Keeps Kᶜ w w' → P a e w') : o.Answers K (Attempt.of x) e w P :=
  fun w' hw => ⟨a, hx, h w' hw⟩

theorem Refuses.of {x : Except ε α} {err : ε} {P : ε → Tally → World → Prop} (hx : x = .error err)
    (h : ∀ w', o.Keeps Kᶜ w w' → P err e w') : o.Refuses K (Attempt.of x) e w P :=
  fun w' hw => ⟨err, hx, h w' hw⟩

theorem Refuses.throw {err : ε} {P : ε → Tally → World → Prop}
    (h : ∀ w', o.Keeps Kᶜ w w' → P err e w') :
    o.Refuses K (MonadExcept.throw err : Attempt ε α) e w P :=
  fun w' hw => ⟨err, rfl, h w' hw⟩

theorem Answers.adapt {f : δ → ε} {x : Attempt δ α} {P : α → Tally → World → Prop}
    (h : o.Answers K x e w P) : o.Answers K (Attempt.adapt f x) e w P :=
  Ends.map h fun _ _ _ ⟨a, ha, hp⟩ => ⟨a, congrArg (Except.mapError f) ha, hp⟩

theorem Refuses.adapt {f : δ → ε} {x : Attempt δ α} {P : ε → Tally → World → Prop}
    (h : o.Refuses K x e w fun err e w => P (f err) e w) : o.Refuses K (Attempt.adapt f x) e w P :=
  Ends.map h fun _ _ _ ⟨err, he, hp⟩ => ⟨f err, congrArg (Except.mapError f) he, hp⟩

theorem Answers.map {f : α → β} {x : Attempt ε α} {P : β → Tally → World → Prop}
    (h : o.Answers K x e w fun a e w => P (f a) e w) : o.Answers K (f <$> x) e w P := by
  refine Ends.bind h fun r e w hr => ?_
  obtain ⟨a, rfl, -⟩ := hr w (.refl ..)
  intro w' hw
  obtain ⟨a', ha, hp⟩ := hr w' hw
  cases ha
  exact ⟨f a, rfl, hp⟩

theorem Answers.discard {x : Attempt ε α} {P : Tally → World → Prop}
    (h : o.Answers K x e w fun _ e w => P e w) :
    o.Answers K (Functor.discard x : Attempt ε Unit) e w fun _ e w => P e w := h.map

/-! ## 2. Operations -/

theorem Answers.observe {P : World → Prop} (hs : o.Stable K P) (hp : P w) :
    o.Answers K (Attempt.observe : Attempt ε World) e w fun seen e' w' => P seen ∧
      e' = e ∧ P w' := by
  intro w' hw
  refine ⟨.refl .., 0, (add_zero _).symm, fun w'' hw' => ?_⟩
  rw [add_zero]
  exact ⟨w', rfl, hs w w' hp hw, rfl, hs w' w'' (hs w w' hp hw) hw'⟩

theorem Answers.files {P : World → Prop} (hs : o.Stable K P) (hp : P w) :
    o.Answers K (Attempt.files : Attempt ε FileTree) e w fun t e' w' =>
      (∃ seen, P seen ∧ t = seen.files) ∧ e' = e ∧ P w' :=
  ((Answers.observe hs hp).imp fun seen _ _ h => ⟨⟨seen, h.1, rfl⟩, h.2⟩).map

theorem Answers.scopes {P : World → Prop} (hs : o.Stable K P) (hp : P w) :
    o.Answers K (Attempt.scopes : Attempt ε ScopeTree) e w fun t e' w' =>
      (∃ seen, P seen ∧ t = seen.scopes) ∧ e' = e ∧ P w' :=
  ((Answers.observe hs hp).imp fun seen _ _ h => ⟨⟨seen, h.1, rfl⟩, h.2⟩).map

/-- An operation that cannot be refused. -/
theorem Answers.perform {op : Op} {P : World → Prop} {Q : op.Reply → World → Prop} {d : Tally}
    (hs : o.Stable K P) (hp : P w) (hq : ∀ r, o.Stable K (Q r))
    (h : ∀ w, P w → o.Keeps K w (op.perform w).2 ∧ o.tally (op.perform w).2 = o.tally w + d ∧
      Q (op.perform w).1 (op.perform w).2) :
    o.Answers K (Attempt.perform op : Attempt ε op.Reply) e w fun r e' w' =>
      e' = e + d ∧ Q r w' := by
  intro w' hw
  obtain ⟨hk, hd, hq'⟩ := h w' (hs w w' hp hw)
  exact ⟨hk, d, hd, fun w'' hw' => ⟨_, rfl, rfl, hq _ _ _ hq' hw'⟩⟩

/-- A change of the files that is made. -/
theorem Answers.change {refused : FileError → ε} {c : FileChange} {P Q : World → Prop}
    (hs : o.Stable K P) (hp : P w) (hq : o.Stable K Q)
    (h : ∀ w, P w → ∃ t, w.files.apply c = (.ok (), t) ∧
      FileTree.SameOutside (o.region K) w.files t ∧ Q { w with files := t }) :
    o.Answers K (Attempt.change refused c) e w fun _ e' w' => e' = e ∧ Q w' := by
  intro w' hw
  obtain ⟨t, ht, hk, hq'⟩ := h w' (hs w w' hp hw)
  have hperform : Op.perform (.change c) w' = (.ok (), { w' with files := t }) := by
    rw [Op.perform, ht]
  rw [hperform]
  refine ⟨⟨hk, .refl _ _ _, List.prefix_rfl, id⟩, 0, (add_zero _).symm, fun w'' hw' => ?_⟩
  rw [add_zero]
  exact ⟨(), rfl, rfl, hq _ _ hq' hw'⟩

/-- A change of the scope that is made. -/
theorem Answers.alter {refused : ScopeError → ε} {c : ScopeTree.Change} {P Q : World → Prop}
    {d : Tally} (hs : o.Stable K P) (hp : P w) (hq : o.Stable K Q)
    (h : ∀ w, P w → ∃ t, w.scopes.apply c = .ok t ∧ w.scopes.Kept o.scope (K ∩ o.classNames) t ∧
      o.tally { w with scopes := t } = o.tally w + d ∧ Q { w with scopes := t }) :
    o.Answers K (Attempt.alter refused c) e w fun _ e' w' => e' = e + d ∧ Q w' := by
  intro w' hw
  obtain ⟨t, ht, hk, hd, hq'⟩ := h w' (hs w w' hp hw)
  have hperform : Op.perform (.alter c) w' = (.ok (), { w' with scopes := t }) := by
    rw [Op.perform, ht]
  rw [hperform]
  exact ⟨⟨.refl _ _, hk, List.prefix_rfl, id⟩, d, hd, fun w'' hw' => ⟨(), rfl, rfl, hq _ _ hq' hw'⟩⟩

/-- What jobs rely on does not depend on what was reported. -/
theorem Answers.report {P : World → Prop} (hs : o.Stable K P) (hp : P w)
    (hlog : ∀ w log, P w → P { w with log }) (event : Log.Event) :
    o.Answers K (Attempt.report event : Attempt ε PUnit) e w fun _ e' w' => e' = e ∧ P w' := by
  have h : o.Answers K (Attempt.perform (.report event) : Attempt ε Unit) e w fun _ e' w' =>
      e' = e + 0 ∧ P w' := Answers.perform hs hp (fun _ => hs) fun w hw =>
    ⟨⟨.refl _ _, .refl _ _ _, List.prefix_rfl, id⟩, (add_zero _).symm, hlog w _ hw⟩
  exact h.imp fun _ _ _ h => ⟨h.1.trans (add_zero _), h.2⟩

end ScriptPlugins.Owning
