import ScriptPlugins.Outcome
import ScriptPlugins.Proofs.Files.Trees

/-!
# Leading — where a path leads, told by its components alone

No entry leads elsewhere, so a walk that succeeds ends where the components say, and it succeeds if
each location on the way is a directory.  The parents of a path are on its way.
-/

namespace ScriptPlugins

/-! ## 1. Components -/

/-- Where a component leads from a location. -/
def Component.next (l : Location) : Component → Location
  | .root => []
  | .here => l
  | .up => l.dropLast
  | .name s => l ++ [s]

/-- Where components lead from a location, if each one on the way is a directory. -/
def leads (l : Location) (cs : List Component) : Location := cs.foldl Component.next l

@[simp] theorem leads_nil (l : Location) : leads l [] = l := rfl

@[simp] theorem leads_cons (l : Location) (c : Component) (cs : List Component) :
    leads l (c :: cs) = leads (c.next l) cs := rfl

theorem leads_append (l : Location) (as bs : List Component) :
    leads l (as ++ bs) = leads (leads l as) bs := List.foldl_append ..

theorem leads_names (l : Location) (ss : List String) : leads l (ss.map .name) = l ++ ss := by
  induction ss generalizing l with
  | nil => exact (List.append_nil l).symm
  | cons s ss ih => exact (ih (l ++ [s])).trans (List.append_cons l s ss).symm

/-- The locations on the way of components, with the one that they lead to. -/
def onWay (l : Location) (cs : List Component) : Set Location :=
  {m | ∃ ps, ps <+: cs ∧ m = leads l ps}

theorem onWay_mono {l : Location} {as bs : List Component} (h : as <+: bs) :
    onWay l as ⊆ onWay l bs :=
  fun _ ⟨ps, hps, hm⟩ => ⟨ps, hps.trans h, hm⟩

theorem leads_mem_onWay (l : Location) (cs : List Component) : leads l cs ∈ onWay l cs :=
  ⟨cs, List.prefix_rfl, rfl⟩

theorem mem_onWay_concat {l m : Location} {cs : List Component} {c : Component} :
    m ∈ onWay l (cs ++ [c]) ↔ m = leads l (cs ++ [c]) ∨ m ∈ onWay l cs := by
  constructor
  · rintro ⟨ps, hps, rfl⟩
    rcases List.prefix_concat_iff.mp hps with rfl | hps
    · exact .inl rfl
    · exact .inr ⟨ps, hps, rfl⟩
  · rintro (rfl | hm)
    · exact leads_mem_onWay l _
    · exact onWay_mono (List.prefix_append cs [c]) hm

/-- Behind some components the way goes down by names. -/
theorem mem_onWay_names {l m : Location} {cs : List Component} {ss : List String}
    (h : m ∈ onWay l (cs ++ ss.map .name)) :
    m ∈ onWay l cs ∨ ∃ r, r <+: ss ∧ m = leads l cs ++ r := by
  obtain ⟨ps, hps, rfl⟩ := h
  rcases List.prefix_or_prefix_of_prefix hps (List.prefix_append cs _) with hcs | ⟨qs, rfl⟩
  · exact .inl ⟨ps, hcs, rfl⟩
  · obtain ⟨r, hr, rfl⟩ := List.prefix_map_iff.mp ((List.prefix_append_right_inj cs).mp hps)
    exact .inr ⟨r, hr, by rw [leads_append, leads_names]⟩

/-! ## 2. Walks -/

namespace FileTree

variable {t t' : FileTree} {l m : Location} {cs : List Component} {p : Path}

theorem enter_eq_ok : t.enter l = .ok () ↔ t.entry? l = some .directory := by
  rw [enter]
  split
  next h => simp [h]
  next h => simp [h]
  next h => simp [h]

theorem walk_cons_eq_ok {c : Component} : t.walk l (c :: cs) = .ok m ↔
    t.entry? l = some .directory ∧ (∀ s, c = .name s → s.utf8ByteSize ≤ nameLimit) ∧
      t.walk (c.next l) cs = .ok m := by
  rw [← enter_eq_ok, walk.eq_def]
  simp only
  rcases t.enter l with e | ⟨⟩
  · exact ⟨fun h => (by cases h), fun h => (by cases h.1)⟩
  · cases c with
    | name s =>
      show (if nameLimit < s.utf8ByteSize then Except.error _ else t.walk (l ++ [s]) cs) = .ok m ↔ _
      split
      next hs => simp [Nat.not_le.mpr hs]
      next hs => simp [Nat.not_lt.mp hs, Component.next]
    | _ =>
      show t.walk _ cs = .ok m ↔ _
      simp [Component.next]

/-- **A walk succeeds if it is on directories all the way**, and then ends where its components
lead. -/
theorem walk_eq_ok : t.walk l cs = .ok m ↔
    m = leads l cs ∧ (∀ ps, ps <+: cs → ps ≠ cs → t.entry? (leads l ps) = some .directory) ∧
      ∀ s, .name s ∈ cs → s.utf8ByteSize ≤ nameLimit := by
  -- A place on the way is the start, or it is on the way from where the first component leads.
  induction cs generalizing l with
  | nil =>
    rw [walk]
    refine ⟨fun h => ⟨(Except.ok.inj h).symm, fun ps hps hne => ?_, fun s hs => ?_⟩, fun h => ?_⟩
    · exact absurd (List.prefix_nil.mp hps) hne
    · cases hs
    · rw [h.1]
      rfl
  | cons c cs ih =>
    rw [walk_cons_eq_ok, ih]
    constructor
    · rintro ⟨hl, hsize, rfl, hway, hsizes⟩
      refine ⟨rfl, fun ps hps hne => ?_, fun s hs => ?_⟩
      · cases ps with
        | nil => exact hl
        | cons d ps =>
          obtain ⟨rfl, hrest⟩ := List.cons_prefix_cons.mp hps
          exact hway ps hrest fun he => hne (congrArg _ he)
      · rcases List.mem_cons.mp hs with hs | hs
        · exact hsize s hs.symm
        · exact hsizes s hs
    · rintro ⟨rfl, hway, hsizes⟩
      refine ⟨hway [] List.nil_prefix (List.cons_ne_nil c cs).symm, fun s hs => ?_, rfl,
        fun ps hps hne => ?_, fun s hs => hsizes s (List.mem_cons_of_mem c hs)⟩
      · exact hsizes s (hs ▸ List.mem_cons_self)
      · exact hway (c :: ps) (List.cons_prefix_cons.mpr ⟨rfl, hps⟩) fun he =>
          hne (List.cons.inj he).2

/-- Down by names a walk succeeds if each location but the last one is a directory. -/
theorem walk_names_eq_ok {ss : List String} : t.walk l (ss.map .name) = .ok m ↔
    m = l ++ ss ∧ (∀ r, r <+: ss → r ≠ ss → t.entry? (l ++ r) = some .directory) ∧
      ∀ s ∈ ss, s.utf8ByteSize ≤ nameLimit := by
  have hinj : Function.Injective Component.name := fun _ _ => Component.name.inj
  rw [walk_eq_ok, leads_names]
  refine and_congr_right fun _ => and_congr ⟨fun h r hr hne => ?_, fun h ps hps hne => ?_⟩
    ⟨fun h s hs => h s (List.mem_map_of_mem hs),
      fun h s hs => h s ((List.mem_map_of_injective hinj).mp hs)⟩
  · rw [← leads_names]
    exact h _ (hr.map _) fun he => hne ((List.map_injective_iff.mpr hinj) he)
  · obtain ⟨r, hr, rfl⟩ := List.prefix_map_iff.mp hps
    rw [leads_names]
    exact h r hr fun he => hne (congrArg _ he)

/-- A walk ends where the first directory is missing. -/
theorem walk_missing (hsizes : ∀ s, .name s ∈ cs → s.utf8ByteSize ≤ nameLimit)
    (hclear : ∀ k ∈ onWay l cs, t.entry? k = none ∨ t.entry? k = some .directory)
    (hmissing : ∃ ps, ps <+: cs ∧ ps ≠ cs ∧ t.entry? (leads l ps) = none) :
    t.walk l cs = .error .notFound := by
  induction cs generalizing l with
  | nil =>
    obtain ⟨ps, hps, hne, -⟩ := hmissing
    exact absurd (List.prefix_nil.mp hps) hne
  | cons c cs ih =>
    rcases hclear l ⟨[], List.nil_prefix, rfl⟩ with hnone | hd
    · rw [walk.eq_def]
      simp only [enter_missing hnone]
      rfl
    · obtain ⟨ps, hps, hne, hnone⟩ := hmissing
      have hrest : t.walk (c.next l) cs = .error .notFound := by
        -- The start is there, so what is missing lies behind the first component.
        cases ps with
        | nil => rw [leads_nil, hd] at hnone; cases hnone
        | cons d ps =>
          obtain ⟨rfl, hrest⟩ := List.cons_prefix_cons.mp hps
          refine ih (fun s hs => hsizes s (List.mem_cons_of_mem d hs)) ?_
            ⟨ps, hrest, fun he => hne (congrArg _ he), hnone⟩
          rintro k ⟨qs, hqs, rfl⟩
          exact hclear _ ⟨d :: qs, List.cons_prefix_cons.mpr ⟨rfl, hqs⟩, rfl⟩
      rw [walk.eq_def]
      simp only [enter_directory hd]
      cases c with
      | name s =>
        have hs : ¬nameLimit < s.utf8ByteSize := Nat.not_lt.mpr (hsizes s List.mem_cons_self)
        exact (if_neg hs).trans hrest
      | _ => exact hrest

/-- A walk still succeeds in a tree that has kept the directories on its way. -/
theorem walk_mono (h : t.walk l cs = .ok m)
    (hkeeps : ∀ k ∈ onWay l cs, t.entry? k = some .directory → t'.entry? k = some .directory) :
    t'.walk l cs = .ok m := by
  obtain ⟨hm, hway, hsizes⟩ := walk_eq_ok.mp h
  exact walk_eq_ok.mpr ⟨hm, fun ps hps hne => hkeeps _ ⟨ps, hps, rfl⟩ (hway ps hps hne), hsizes⟩

/-- A walk that succeeds does so as far as any place on its way. -/
theorem walk_of_prefix {as : List Component} (h : t.walk l cs = .ok m) (hp : as <+: cs) :
    t.walk l as = .ok (leads l as) := by
  obtain ⟨bs, rfl⟩ := hp
  rw [walk_append] at h
  obtain ⟨k, hk, -⟩ := bind_eq_ok h
  rw [hk, (walk_eq_ok.mp hk).1]

theorem place_eq_ok : t.place p = .ok l ↔ Fits p ∧ t.walk t.here p.steps = .ok l := by
  rw [place, Fits]
  rcases checkText p with e | ⟨⟩
  · exact ⟨fun h => (by cases h), fun h => (by cases h.1)⟩
  · exact ⟨fun h => ⟨rfl, h⟩, fun h => h.2⟩

theorem leads_of_place (h : t.place p = .ok l) : l = leads t.here p.steps :=
  (walk_eq_ok.mp (place_eq_ok.mp h).2).1

/-- What is looked for lies where the path leads; behind a slash at its end there is nothing
more. -/
theorem locate_eq_ok : t.locate p = .ok l ↔
    t.place p = .ok l ∧ (p.endsInSlash = true → t.entry? l = some .directory) := by
  rw [place_eq_ok, locate, Fits]
  rcases checkText p with e | ⟨⟩
  · exact ⟨fun h => (by cases h), fun h => (by cases h.1.1)⟩
  · show t.walk t.here _ = .ok l ↔ _
    cases p.endsInSlash with
    | false => simp
    | true =>
      simp only [if_true, walk_append]
      cases hw : t.walk t.here p.steps with
      | error e => exact ⟨fun h => (by cases h), fun h => (by cases h.1.2)⟩
      | ok m =>
        show t.walk m [.here] = .ok l ↔ _
        rw [walk_cons_eq_ok, walk]
        simp only [Component.next, reduceCtorEq, false_implies, implies_true, true_and,
          Except.ok.injEq, forall_const]
        constructor
        · rintro ⟨hd, rfl⟩
          exact ⟨rfl, hd⟩
        · rintro ⟨rfl, hd⟩
          exact ⟨hd, rfl⟩

end FileTree

/-! ## 3. Parts of paths -/

namespace Path

variable {p q : Path}

theorem mem_steps {c : Component} (h : c ∈ p.steps) :
    c = .root ∨ ∃ part ∈ Text.splitOn (· = '/') p.text.toList, part ≠ [] ∧ c = ofPart part := by
  rw [steps_eq] at h
  have hparts (h : c ∈ partsOf p.text.toList) :
      ∃ part ∈ Text.splitOn (· = '/') p.text.toList, part ≠ [] ∧ c = ofPart part := by
    obtain ⟨part, hpart, rfl⟩ := List.mem_map.mp h
    obtain ⟨hmem, hne⟩ := List.mem_filter.mp hpart
    exact ⟨part, hmem, by simpa using hne, rfl⟩
  split at h
  · exact (List.mem_cons.mp h).imp_right hparts
  · exact .inr (hparts h)

/-- The names of a path lead down. -/
theorem isPart_of_mem_steps {s : String} (h : .name s ∈ p.steps) : IsPart s := by
  obtain hroot | ⟨part, hpart, hne, hs⟩ := mem_steps h
  · cases hroot
  · rw [ofPart] at hs
    split at hs
    · cases hs
    next hhere =>
      split at hs
      · cases hs
      next hup =>
        cases hs
        have hlist {t : String} (he : String.ofList part = t) : part = t.toList := by
          rw [← he, String.toList_ofList]
        refine ⟨fun he => hne (hlist he), ?_, fun he => hhere (hlist he), fun he => hup (hlist he)⟩
        rw [String.toList_ofList]
        exact fun hc => by simpa using Text.sep_eq_false_of_mem hpart hc

/-- A path whose text is not empty has components. -/
theorem steps_ne_nil (h : p.text ≠ "") : p.steps ≠ [] := by
  rw [steps_eq]
  split
  · exact List.cons_ne_nil _ _
  next hhead =>
    obtain ⟨c, cs, hcs⟩ :=
      List.exists_cons_of_ne_nil fun hnil => h (String.toList_eq_nil_iff.mp hnil)
    have hc : c ≠ '/' := fun he => hhead (by rw [hcs, he]; rfl)
    obtain ⟨part, parts, hsplit⟩ := List.exists_cons_of_ne_nil (Text.splitOn_ne_nil (· = '/') cs)
    rw [hcs, partsOf, Text.splitOn, if_neg (by simpa using hc), hsplit]
    simp

theorem trimParts_suffix (parts : List (List Char)) : trimParts parts <:+ parts := by
  induction parts with
  | nil => exact List.suffix_rfl
  | cons part parts ih =>
    cases parts with
    | nil =>
      rw [trimParts]
      split
      · exact List.suffix_rfl
      · exact List.nil_suffix
    | cons next parts =>
      rw [trimParts]
      · split
        · exact List.suffix_rfl
        · exact ih.trans (List.suffix_cons part _)
      · exact List.cons_ne_nil next parts

/-- The components of some parts between slashes. -/
def ofParts (parts : List (List Char)) : List Component := (parts.filter (· ≠ [])).map ofPart

theorem ofParts_prefix {as bs : List (List Char)} (h : as <+: bs) : ofParts as <+: ofParts bs :=
  (h.filter _).map _

/-- Parts that are put together are taken apart again. -/
theorem splitOn_joinWith {parts : List (List Char)} (hne : parts ≠ [])
    (h : ∀ part ∈ parts, '/' ∉ part) :
    Text.splitOn (· = '/') (Text.joinWith "/" (parts.map String.ofList)).toList = parts := by
  induction parts with
  | nil => exact absurd rfl hne
  | cons part parts ih =>
    have hpart := Text.splitOn_slash (h part List.mem_cons_self)
    cases parts with
    | nil =>
      rw [List.map_singleton, Text.joinWith, String.toList_ofList, hpart]
    | cons next parts =>
      have hlit : ("/" : String).toList = ['/'] := rfl
      have hrest := ih (List.cons_ne_nil _ _) fun part hp => h part (List.mem_cons_of_mem _ hp)
      rw [List.map_cons] at hrest ⊢
      rw [List.map_cons, Text.joinWith_cons, String.toList_append, String.toList_append, hlit,
        String.toList_ofList, List.append_assoc, List.singleton_append,
        Text.splitOn_append (by simp), hpart, hrest]
      rfl

/-- The components of parts that are put together. -/
theorem partsOf_joinWith {parts : List (List Char)} (h : ∀ part ∈ parts, '/' ∉ part) :
    partsOf (Text.joinWith "/" (parts.map String.ofList)).toList = ofParts parts := by
  by_cases hne : parts = []
  · rw [hne]
    rfl
  · rw [partsOf, splitOn_joinWith hne h]
    rfl

/-- The first of some parts are the beginning of their text. -/
theorem joinWith_prefix {as bs : List (List Char)} (h : as <+: bs) :
    (Text.joinWith "/" (as.map String.ofList)).toList <+:
      (Text.joinWith "/" (bs.map String.ofList)).toList := by
  induction as generalizing bs with
  | nil => exact List.nil_prefix
  | cons a as ih =>
    obtain ⟨b, bs', rfl⟩ : ∃ b bs', bs = b :: bs' := List.exists_cons_of_ne_nil fun hnil => by
      rw [hnil] at h
      exact List.cons_ne_nil a as (List.prefix_nil.mp h)
    obtain ⟨rfl, htail⟩ := List.cons_prefix_cons.mp h
    cases bs' with
    | nil => rw [List.prefix_nil.mp htail]
    | cons b' bs' =>
      rw [List.map_cons, List.map_cons, List.map_cons, Text.joinWith_cons, String.append_assoc,
        String.toList_append]
      cases as with
      | nil => exact List.prefix_append ..
      | cons a' as' =>
        have hrest := ih htail
        rw [List.map_cons] at hrest ⊢
        rw [Text.joinWith_cons, String.append_assoc, String.toList_append, String.toList_append,
          String.toList_append]
        exact (List.prefix_append_right_inj _).mpr ((List.prefix_append_right_inj _).mpr hrest)

theorem steps_rooted {cs : List Char} (h : p.text.toList = '/' :: cs) :
    p.steps = .root :: partsOf cs := by
  have hhead : ('/' :: cs).head? = some '/' := rfl
  rw [steps_eq, h, if_pos hhead]
  exact congrArg (Component.root :: ·) (partsOf_append_slash [] cs)

theorem steps_relative (h : p.text.toList.head? ≠ some '/') : p.steps = partsOf p.text.toList := by
  rw [steps_eq, if_neg h]

/-- What is left of some parts, read backwards, are the first of them. -/
theorem reverse_prefix_of_trimParts {part : List Char} {all parts rest : List (List Char)}
    (htrim : trimParts all.reverse = part :: parts) (hrest : rest <:+ parts) :
      rest.reverse <+: all := by
  have hsuffix := trimParts_suffix all.reverse
  rw [htrim] at hsuffix
  have hprefix :=
    List.reverse_prefix.mpr (hrest.trans ((List.suffix_cons part parts).trans hsuffix))
  rwa [List.reverse_reverse] at hprefix

/-- **A parent is on the way of a path.** -/
theorem steps_parent? (h : p.parent? = some q) : q.steps <+: p.steps := by
  have hno {cs : List Char} {parts : List (List Char)}
      (hparts : parts <+: Text.splitOn (· = '/') cs) : ∀ part ∈ parts, '/' ∉ part :=
    fun part hp hc => by simpa using Text.sep_eq_false_of_mem (hparts.subset hp) hc
  by_cases hhead : p.text.toList.head? = some '/'
  · obtain ⟨cs, hcs⟩ := List.head?_eq_some_iff.mp hhead
    rw [parent?_rooted hcs] at h
    split at h
    · cases h
    next part parts htrim =>
      cases h
      have hprefix : (parent?.trimRooted parts).reverse <+: _ :=
        reverse_prefix_of_trimParts htrim (List.dropWhile_suffix (!counts false ·))
      have htext : ("/" ++ Text.joinWith "/"
          ((parent?.trimRooted parts).reverse.map String.ofList)).toList =
          '/' :: (Text.joinWith "/"
            ((parent?.trimRooted parts).reverse.map String.ofList)).toList :=
        String.toList_append
      rw [steps_rooted hcs, steps_rooted htext, partsOf_joinWith (hno hprefix)]
      exact List.cons_prefix_cons.mpr ⟨rfl, ofParts_prefix hprefix⟩
  · rw [parent?_relative hhead] at h
    split at h
    · cases h
    next part parts htrim =>
      cases h
      have hprefix := reverse_prefix_of_trimParts htrim (trimParts_suffix parts)
      -- The text of the parent is the beginning of a text that does not begin with a slash.
      have htext := joinWith_prefix hprefix
      rw [Text.joinWith_splitOn, String.toList_ofList] at htext
      have hhead' : (Text.joinWith "/" ((trimParts parts).reverse.map String.ofList)).toList.head? ≠
          some '/' := by
        intro hslash
        obtain ⟨cs, hcs⟩ := List.head?_eq_some_iff.mp hslash
        obtain ⟨rest, hrest⟩ := htext
        rw [hcs] at hrest
        exact hhead (hrest ▸ rfl)
      rw [steps_relative hhead, steps_relative hhead', partsOf_joinWith (hno hprefix)]
      exact ofParts_prefix hprefix

/-- So are the parents of a parent. -/
theorem steps_ancestors (h : q ∈ p.ancestors) : q.steps <+: p.steps := by
  have hgo (fuel : Nat) (p : Path) : ∀ q ∈ ancestors.go fuel p, q.steps <+: p.steps := by
    induction fuel generalizing p with
    | zero =>
      intro q hq
      rw [List.mem_singleton.mp hq]
    | succ fuel ih =>
      intro q hq
      rw [ancestors.go] at hq
      cases hparent : p.parent? with
      | none =>
        rw [hparent] at hq
        rw [List.mem_singleton.mp hq]
      | some above =>
        rw [hparent] at hq
        rcases List.mem_cons.mp hq with rfl | hq
        · exact List.prefix_rfl
        · exact (ih above q hq).trans (steps_parent? hparent)
  exact hgo _ p q h

end Path

end ScriptPlugins
