import ScriptPlugins.Proofs.Batch.Independence
import ScriptPlugins.Proofs.Cache.Sparing

/-!
# Shelving — what the scripts of a batch leave in the directory for adapters

A batch that opens has an empty directory for adapters, whatever was there before.  Each script that
succeeds puts one file into it and a script that fails puts none, on any schedule of the workers.
-/

namespace ScriptPlugins

open FileTree BuildLayout Attempt

variable {ε α β : Type} {b : BuildLayout} {p : Precompiler} {l : Location} {f : String} {s : Script}
  {w w' w₀ : World} {dir : Path} {root scope : Nat} {scripts : List Script}

/-! ## 1. Opening a batch -/

theorem of_run_removeIfThere (h : Job.run (removeIfThere dir).run w = (.ok (), w')) :
    ∃ reply t, w.files.removeDirectory dir = (reply, t) ∧
      (reply = .ok () ∨ reply = .error .notFound) ∧ w' = { w with files := t } := by
  obtain ⟨reply, answer, t, ht, hrun, hanswer⟩ := run_removeIfThere_cases dir w
  obtain ⟨rfl, rfl⟩ := Prod.mk.inj (h.symm.trans hrun)
  exact ⟨reply, t, ht, hanswer rfl, rfl⟩

theorem of_run_makeDirectories (h : Job.run (makeDirectories dir).run w = (.ok (), w')) :
    ∃ t, w.files.makeDirectories dir = (.ok (), t) ∧ w' = { w with files := t } := of_run_change h

/-- **A batch that opens has an empty directory for adapters**, whatever was there before. -/
theorem of_run_opening (hproper : w.files.Proper) (hd : p.layout.Direct w.files.here)
    (h : Job.run (p.opening root scripts).run w = (.ok scope, w₀)) :
    p.layout.Prepared w.files.here w₀ ∧ Takeable p.layout.adapters ∧
      ∀ m ∈ inside (p.layout.adaptersAt w.files.here), w₀.files.entry? m = none := by
  obtain ⟨scope', w₁, hnew, h⟩ := of_run_bind_ok h
  obtain ⟨_, w₂, hregister, h⟩ := of_run_bind_ok h
  obtain ⟨_, w₃, hreset, h⟩ := of_run_bind_ok h
  obtain ⟨scopes, w₄, hscopes, h⟩ := of_run_bind_ok h
  obtain ⟨path, w₅, hpath, h⟩ := of_run_bind_ok h
  obtain ⟨_, w₆, hreport, h⟩ := of_run_bind_ok h
  have hfiles : w₁.files = w.files := by
    have hleaves :
        LeavesFiles (Attempt.adapt BuildError.scope (Attempt.newScope root batchScopeName)) :=
      LeavesFiles.adapt (.bind (x := ExceptT.mk (Job.perform (.newScope root batchScopeName)))
        ⟨rfl, fun _ => trivial⟩ fun _ => (LeavesFiles.report _).bind fun _ => .pure _)
    have hsame := hleaves.preserves (P := fun v => v.files = w.files)
      (fun op v hop hv => (Op.files_perform hop v).trans hv) w rfl
    rwa [hnew] at hsame
  -- What comes after the output is made anew changes the log, and nothing else.
  obtain rfl : { w₁ with registered := [] } = w₂ := (Prod.mk.inj hregister).2
  obtain rfl : w₃ = w₄ := (Prod.mk.inj hscopes).2
  obtain rfl : w₃ = w₅ := (Prod.mk.inj hpath).2
  obtain rfl : { w₃ with log := w₃.log ++ _ } = w₆ := (Prod.mk.inj hreport).2
  obtain rfl : { w₃ with log := w₃.log ++ _ } = w₀ := (Prod.mk.inj h).2
  obtain ⟨_, v₂, hclasses, hadapters⟩ := of_run_bind_ok hreset
  obtain ⟨_, v₁, h₁, h₂⟩ := of_run_bind_ok hclasses
  obtain ⟨_, v₃, h₃, h₄⟩ := of_run_bind_ok hadapters
  obtain ⟨reply, t₁, ht₁, -, rfl⟩ := of_run_removeIfThere h₁
  obtain ⟨t₂, ht₂, rfl⟩ := of_run_makeDirectories h₂
  obtain ⟨reply', t₃, ht₃, hreply, rfl⟩ := of_run_removeIfThere h₃
  obtain ⟨t₄, ht₄, rfl⟩ := of_run_makeDirectories h₄
  have ht₁' : w.files.removeDirectory p.layout.outputClasses = (reply, t₁) := hfiles ▸ ht₁
  obtain ⟨hsited, htake, hnothing⟩ := sited_of_reset hproper hd ht₁' ht₂ ht₃ hreply ht₄
  exact ⟨⟨hsited, fun _ hdir => nomatch hdir⟩, htake, hnothing⟩

/-! ## 2. One script -/

/-- Something is true of one file in the directory for adapters. -/
theorem relies_entry (b : BuildLayout) (l : Location) (f : String) (e : Option Entry) :
    b.Relies l {b.adaptersAt l ++ [f]} fun w =>
      b.Prepared l w ∧ w.files.entry? (b.adaptersAt l ++ [f]) = e where
  stable _ _ hw hk := ⟨hk.prepared hw.1,
    (hk.adapters _ (mem_inside (List.cons_ne_nil f [])) fun hin => hin rfl).trans hw.2⟩
  prepared _ hw := hw.1

theorem spares_makeAdapters (b : BuildLayout) : b.Spares (.makeDirectories b.adapters) := by
  have hsteps : b.adapters.steps <+: b.root.steps ++ adaptersNames.map .name :=
    steps_adapters b ▸ List.prefix_rfl
  exact .makeDirectories hsteps fun _ => rfl

/-- What a script that succeeded has left: the file of its adapter, and a registered directory. -/
structure Script.LeavesAdapter (b : BuildLayout) (l : Location) (s : Script) (w : World)
    (success : ScriptSuccess) : Prop where
  name : success.adapter.name = s.adapterName
  scriptId : success.adapter.scriptId = s.id
  fits : Fits (b.adapters.join success.adapter.fileName)
  registered : w.registered ≠ []
  entry : w.files.entry? (b.adaptersAt l ++ [success.adapter.fileName]) =
    some (.file success.adapter.print.toUTF8)

/-- What a script has left in the directory for adapters: nothing if it failed. -/
def Script.Leaves (b : BuildLayout) (l : Location) (s : Script) (w : World) : ScriptResult → Prop
  | .ok success => s.LeavesAdapter b l w success
  | .error _ => w.files.entry? (b.adaptersAt l ++ [s.adapterFile]) = none

theorem Script.LeavesAdapter.fileName {success : ScriptSuccess}
    (h : s.LeavesAdapter b l w success) :
    success.adapter.fileName = s.adapterFile := congrArg (· ++ ".toml") h.name

/-- An adapter is written as a whole, or not at all. -/
theorem among_replaceFile (hf : IsPart f) (bytes : ByteArray)
    (refused : FileError → BuildError)
    (hw : (b.Prepared l w ∧ w.files.entry? (b.adaptersAt l ++ [f]) = none) ∧ w.registered ≠ []) :
    (Attempt.change refused (.replaceFile (b.adapters.join f) bytes)).run.Among (b.division l)
      {b.adaptersAt l ++ [f]} (fun r w =>
        ((b.Prepared l w ∧ w.files.entry? (b.adaptersAt l ++ [f]) =
          if r.isOk then some (.file bytes) else none) ∧ w.registered ≠ []) ∧
        (r.isOk = true → Fits (b.adapters.join f))) w := by
  intro w' hk
  obtain ⟨⟨hprepared, hnone⟩, hregistered⟩ := (relies_entry b l f none).registered.stable w w' hw hk
  obtain ⟨reply, t, ht⟩ : ∃ reply t, w'.files.apply (.replaceFile (b.adapters.join f) bytes) =
      (reply, t) :=
    ⟨_, _, rfl⟩
  have hperform : Op.perform (.change (.replaceFile (b.adapters.join f) bytes)) w' =
      (reply, { w' with files := t }) := by rw [Op.perform, ht]
  rw [hperform]
  rw [FileTree.apply] at ht
  cases hreplace : w'.files.replaceFile (b.adapters.join f) bytes with
  | error e =>
    -- The tree is as before, so the file is missing still.
    rw [hreplace] at ht
    obtain ⟨rfl, rfl⟩ := Prod.mk.inj ht
    refine ⟨(b.division l).refl .., fun w'' hk' => ⟨?_, fun hok => (by cases hok)⟩⟩
    exact (relies_entry b l f none).registered.stable w' w'' ⟨⟨hprepared, hnone⟩, hregistered⟩ hk'
  | ok t' =>
    rw [hreplace] at ht
    obtain ⟨rfl, rfl⟩ := Prod.mk.inj ht
    obtain ⟨hsited, rfl, hfits⟩ := hprepared.sited.replaceFile hf hreplace
    have hne : b.adaptersAt l ++ [f] ≠ [] := by simp
    refine ⟨⟨fun h => ⟨hsited, h.registered⟩, fun m _ hm => entry?_put_of_ne _ hne _ hm,
      List.prefix_rfl⟩, fun w'' hk' => ⟨?_, fun _ => hfits⟩⟩
    have hput : b.Prepared l
        { w' with files := w'.files.put (b.adaptersAt l ++ [f]) (.file bytes) } :=
      ⟨hsited, hprepared.registered⟩
    exact (relies_entry b l f (some (.file bytes))).registered.stable _ w''
      ⟨⟨hput, entry?_put_self w'.files hne _⟩, hregistered⟩ hk'

theorem isPart_adapterFile (s : Script) : IsPart s.adapterFile := by
  refine PlainText.isPart (s.plain_adapterName.1.append (by decide +kernel)) ?_
  have hextension : ".toml".toList.length = 5 := rfl
  rw [Script.adapterFile, String.toList_append, List.length_append]
  omega

/-- The adapter of a script is generated, or nothing is. -/
theorem among_generate (hd : b.Direct l) {a : Adapter} (hf : IsPart a.fileName)
    (hw : (b.Prepared l w ∧ w.files.entry? (b.adaptersAt l ++ [a.fileName]) = none) ∧
      w.registered ≠ []) :
    (a.generate b.adapters).run.Among (b.division l) {b.adaptersAt l ++ [a.fileName]} (fun r w =>
      w.files.entry? (b.adaptersAt l ++ [a.fileName]) =
          (if r.isOk then some (.file a.print.toUTF8) else none) ∧
        w.registered ≠ [] ∧ (r.isOk = true → Fits (b.adapters.join a.fileName))) w := by
  have hnothing := (relies_entry b l a.fileName none).registered
  have hwritten := (relies_entry b l a.fileName (some (.file a.print.toUTF8))).registered
  refine among_bind (heeds_change hd hnothing (spares_makeAdapters b) _ w hw) (fun _ w hw => ?_)
    fun _ _ h => ⟨h.1.2, h.2, fun hok => (by cases hok)⟩
  refine among_bind (among_replaceFile hf _ _ hw) (fun _ w hw => ?_)
    fun _ _ h => ⟨h.1.1.2, h.1.2, fun hok => (by cases hok)⟩
  -- Once it is written, nothing can fail.
  obtain ⟨hw, hfits⟩ := hw
  refine among_bind (among_perform_isOk hwritten.stable
    (fun w hw => (hwritten.prepared w hw).perform hd (.report _)) hw) (fun _ w hw => ?_)
    fun _ _ h => nomatch h.1
  intro w' hk
  obtain ⟨⟨-, hentry⟩, hregistered⟩ := hwritten.stable w w' hw.2 hk
  exact ⟨hentry, hregistered, hfits⟩

/-- **A script leaves its adapter, or nothing**, whatever the others do. -/
theorem among_compileScript (hd : p.layout.Direct l) (scope : Nat) (s : Script)
    (hw : p.layout.Prepared l w)
    (hnone : w.files.entry? (p.layout.adaptersAt l ++ [s.adapterFile]) = none) :
    (p.compileScript scope s).run.Among (p.layout.division l)
      {p.layout.adaptersAt l ++ [s.adapterFile]} (fun r w => s.Leaves p.layout l w r) w := by
  -- No file has this name before the adapter is generated, since only this script writes it.
  have hnothing := relies_entry p.layout l s.adapterFile none
  refine among_bind (BuildLayout.among_compileScript hd hnothing p.compiler s scope ⟨hw, hnone⟩)
    (fun compiled w hw => ?_) fun _ _ h => h.1.2
  have hgenerate := among_generate (a := .ofScript s compiled.preamble compiled.body) hd
    (isPart_adapterFile s) ⟨hw.1, hw.2 rfl⟩
  refine Job.Among.bind hgenerate fun r w hr => ?_
  cases r with
  | error e => exact fun w' hk => (hr w' hk).1
  | ok path =>
    intro w' hk
    obtain ⟨hentry, hregistered, hfits⟩ := hr w' hk
    exact ⟨rfl, rfl, hfits rfl, hregistered, hentry⟩

/-! ## 3. All scripts -/

variable {acc : List (Nat × Script)} {finished : List (Nat × ScriptResult)} {q : Pool ScriptResult}
  {workers : Nat}

/-- The file of the script at a place of a batch. -/
def BuildLayout.fileAt (b : BuildLayout) (l : Location) (acc : List (Nat × Script)) (i : Nat) :
    Set Location :=
  {m | ∃ s, (i, s) ∈ acc ∧ m = b.adaptersAt l ++ [s.adapterFile]}

theorem AllApart.fileAt_place (h : AllApart acc) {i : Nat} (hs : (i, s) ∈ acc) :
    b.fileAt l acc i = {b.adaptersAt l ++ [s.adapterFile]} := by
  ext m
  constructor
  · rintro ⟨s', hs', rfl⟩
    obtain rfl : s' = s := congrArg Prod.snd (h.eq_of_place hs' hs rfl)
    rfl
  · rintro rfl
    exact ⟨s, hs, rfl⟩

/-- Scripts without a name in common have different adapters. -/
theorem Apart.adapterFile_ne {a a' : Nat × Script} (h : Apart a a') :
    a.2.adapterFile ≠ a'.2.adapterFile := by
  intro he
  have hname : a.2.adapterName = a'.2.adapterName := String.append_left_inj _ |>.mp he
  refine h.2 a.2.adapterName (by simp [Script.names]) ?_
  rw [hname]
  simp [Script.names]

theorem AllApart.disjoint_fileAt (h : AllApart acc) (i i' : Nat) (hi : i ≠ i') :
    Disjoint (b.fileAt l acc i) (b.fileAt l acc i') := by
  rw [Set.disjoint_left]
  rintro m ⟨s, hs, rfl⟩ ⟨s', hs', he⟩
  have hapart := h.forall hs hs' fun he => hi (congrArg Prod.fst he)
  exact hapart.adapterFile_ne (List.singleton_injective (List.append_cancel_left he))

/-- What the scripts of a batch have left when all of them have ended. -/
structure BuildLayout.Shelved (b : BuildLayout) (l : Location) (acc : List (Nat × Script))
    (finished : List (Nat × ScriptResult)) (w : World) : Prop where
  prepared : b.Prepared l w
  numbers : (finished.map Prod.fst).Perm (acc.map Prod.fst)
  leaves : ∀ r ∈ finished, ∀ s, (r.1, s) ∈ acc → s.Leaves b l w r.2
  nothing : ∀ m ∈ inside (b.adaptersAt l), (∀ a ∈ acc, m ≠ b.adaptersAt l ++ [a.2.adapterFile]) →
    w.files.entry? m = none

/-- **Each script of a batch has left its adapter or nothing**, on any schedule, and there is
nothing else in the directory for adapters. -/
theorem Precompiler.shelved (hd : p.layout.Direct l) (hapart : AllApart acc)
    (hprepared : p.layout.Prepared l w₀)
    (hnothing : ∀ m ∈ inside (p.layout.adaptersAt l), w₀.files.entry? m = none)
    (hsteps : Pool.Steps workers (.queue (p.jobs scope acc) w₀) q) (hover : q.IsOver) :
    p.layout.Shelved l acc q.finished q.world := by
  have hplaces : (p.jobs scope acc).map Prod.fst = acc.map Prod.fst := by
    rw [jobs, List.map_map]
    rfl
  have hamong : ∀ j ∈ p.jobs scope acc, j.2.Among (p.layout.division l) (p.layout.fileAt l acc j.1)
      (fun r w => ∀ s, (j.1, s) ∈ acc → s.Leaves p.layout l w r) w₀ := by
    intro j hj
    obtain ⟨⟨i, s⟩, hs, rfl⟩ := List.mem_map.mp hj
    show (p.compileScript scope s).run.Among _ (p.layout.fileAt l acc i) _ w₀
    rw [hapart.fileAt_place hs]
    refine (among_compileScript hd scope s hprepared (hnothing _ (mem_inside (by simp)))).imp ?_
    intro r w hr s' hs'
    obtain rfl : s' = s := congrArg Prod.snd (hapart.eq_of_place hs' hs rfl)
    exact hr
  obtain ⟨hnumbers, hkeeps, hends⟩ := Pool.Steps.ended
    (Q := fun i r w => ∀ s, (i, s) ∈ acc → s.Leaves p.layout l w r) hapart.disjoint_fileAt
    (hplaces ▸ hapart.nodup) hamong hsteps hover
  refine ⟨hkeeps.prepared hprepared, hplaces ▸ hnumbers, hends, fun m hm hother => ?_⟩
  refine (hkeeps.adapters m hm ?_).trans (hnothing m hm)
  rintro ⟨i, -, s, hs, rfl⟩
  exact hother (i, s) hs rfl

end ScriptPlugins
