import ScriptPlugins.Proofs.Language.Grammar
import ScriptPlugins.Proofs.Language.Readers

/-!
# Derivation — the readers of statements accept what the grammar derives

Each reader answers exactly on tokens that begin with a derivation of its part, and answers what the
derivation stands for.  What may follow a part decides where the reader stops: an optional part is
taken if its word stands there, and a statement or request is taken up to what ends it.
-/

namespace ScriptPlugins.Language

variable {α : Type} {kindOf : α → TokenKind} {last line : Nat} {t : Token} {ts r : List Token}
  {inBlock : Bool}

/-! ## 1. Single tokens -/

theorem takeKind_eq_ok_iff {kind : TokenKind} {what : String} :
    takeKind last kind what ts = .ok ((), r) ↔ ∃ m : Mark kind, ts = m.token :: r := by
  constructor
  · intro h
    cases ts with
    | nil => cases h
    | cons u us =>
      rw [takeKind] at h
      split at h
      next hk =>
        cases h
        obtain ⟨m, rfl⟩ := exists_mark hk
        exact ⟨m, rfl⟩
      next => cases h
  · rintro ⟨m, rfl⟩
    have hm : m.token.kind = kind := m.kind_eq
    rw [takeKind, if_pos hm]

theorem takeText_eq_ok_iff {after value : String} :
    takeText last after ts = .ok (value, r) ↔
      ∃ l : TextLeaf, ts = l.token :: r ∧ l.value = value := by
  constructor
  · intro h
    cases ts with
    | nil => cases h
    | cons u us =>
      rw [takeText] at h
      split at h
      next hk =>
        cases h
        exact ⟨⟨u, value, hk⟩, rfl, rfl⟩
      next => cases h
  · rintro ⟨l, rfl, rfl⟩
    rw [takeText, l.kind_eq]

/-- Blanks are skipped as far as they go. -/
theorem dropWhile_eq_iff {q : Token → Bool} (hq : ∀ t, q t ↔ t.kind ∈ Set.range kindOf) :
    ts.dropWhile q = r ↔
      ∃ ls : List (Leaf kindOf), ts = ls.map Leaf.token ++ r ∧ Unled kindOf r := by
  constructor
  · rintro rfl
    induction ts with
    | nil => exact ⟨[], rfl, by simp [Unled]⟩
    | cons u us ih =>
      by_cases hu : q u
      · obtain ⟨ls, hls, hr⟩ := ih
        obtain ⟨l, rfl⟩ := exists_leaf ((hq u).mp hu)
        rw [List.dropWhile_cons_of_pos hu]
        exact ⟨l :: ls, by rw [List.map_cons, List.cons_append, ← hls], hr⟩
      · rw [List.dropWhile_cons_of_neg hu]
        exact ⟨[], rfl, by rintro t ⟨⟩ ht; exact hu ((hq u).mpr ht)⟩
  · rintro ⟨ls, rfl, hr⟩
    rw [List.dropWhile_append_of_pos fun t ht => ?_]
    · cases r with
      | nil => rfl
      | cons u us =>
        exact List.dropWhile_cons_of_neg fun hu => hr u rfl ((hq u).mp hu)
    · obtain ⟨l, -, rfl⟩ := List.mem_map.mp ht
      exact (hq _).mpr l.kind_mem

theorem exists_takeEnd_iff : (∃ r, takeEnd inBlock ts = .ok ((), r)) ↔ Ends inBlock ts := by
  cases ts with
  | nil => exact ⟨fun _ => by simp [Ends], fun _ => ⟨[], rfl⟩⟩
  | cons u us =>
    have hends : Ends inBlock (u :: us) ↔ u.isTerminator ∨ inBlock ∧ u.kind = .closeBrace := by
      rw [isTerminator_iff]
      exact ⟨fun h => h u rfl, by rintro h t ⟨⟩; exact h⟩
    rw [hends, takeEnd]
    split
    next hu => exact ⟨fun _ => .inl hu, fun _ => ⟨us, rfl⟩⟩
    next hu =>
      split
      next hc => exact ⟨fun _ => .inr hc, fun _ => ⟨u :: us, rfl⟩⟩
      next hc => exact ⟨by rintro ⟨_, ⟨⟩⟩, by rintro (h | h) <;> contradiction⟩

/-! ## 2. Requests -/

theorem unled_word_iff {name : String} :
    Unled (only (.word name)) (t :: ts) ↔ ¬t.isWord name := by
  rw [isWord_iff]
  constructor
  · intro h hk
    exact h t rfl ⟨(), hk.symm⟩
  · rintro h t ⟨⟩ ⟨⟨⟩, hk⟩
    exact h hk.symm

theorem unled_of_not_word {name : String} (h : ∀ t us, ts = t :: us → ¬t.isWord name) :
    Unled (only (.word name)) ts := by
  cases ts with
  | nil => simp [Unled]
  | cons t us => exact unled_word_iff.mpr (h t us rfl)

theorem takeVersion_eq_ok_iff {version : Option String} :
    takeVersion last ts = .ok (version, r) ↔
      ∃ o : Option (Mark (.word "version") × TextLeaf), ts = optional o ++ r ∧
        optionalValue o = version ∧ (o = none → Unled (only (.word "version")) r) := by
  constructor
  · intro h
    rcases takeVersion_cases h with ⟨rfl, rfl, hnot⟩ | ⟨u, us, value, rfl, hu, rfl, htext⟩
    · exact ⟨none, rfl, rfl, fun _ => unled_of_not_word hnot⟩
    · obtain ⟨m, rfl⟩ := exists_mark (isWord_iff.mp hu)
      obtain ⟨l, rfl, rfl⟩ := takeText_eq_ok_iff.mp htext
      exact ⟨some (m, l), rfl, rfl, fun h => absurd h (Option.some_ne_none _)⟩
  · rintro ⟨_ | ⟨m, l⟩, hts, rfl, hr⟩
    · obtain rfl : ts = r := hts
      cases ts with
      | nil => rfl
      | cons u us =>
        rw [takeVersion, if_neg (unled_word_iff.mp (hr rfl))]
        rfl
    · obtain rfl : ts = m.token :: l.token :: r := hts
      rw [takeVersion, if_pos (isWord_iff.mpr m.kind_eq), takeText_eq_ok_iff.mpr ⟨l, rfl, rfl⟩]
      rfl

theorem takeSwitch_eq_ok_iff {apply : Bool} :
    takeSwitch line ts = .ok (apply, r) ↔
      ∃ o : Option (Mark (.word "apply") × Leaf switchKind), ts = optional o ++ r ∧
        (optionalValue o).getD true = apply ∧ (o = none → Unled (only (.word "apply")) r) := by
  constructor
  · intro h
    rcases takeSwitch_cases h with ⟨rfl, rfl, hnot⟩ | ⟨u, v, rfl, hu, hv⟩
    · exact ⟨none, rfl, rfl, fun _ => unled_of_not_word hnot⟩
    · obtain ⟨m, rfl⟩ := exists_mark (isWord_iff.mp hu)
      exact ⟨some (m, ⟨v, apply, isWord_iff.mp hv⟩), rfl, rfl,
        fun h => absurd h (Option.some_ne_none _)⟩
  · rintro ⟨_ | ⟨m, l⟩, hts, rfl, hr⟩
    · obtain rfl : ts = r := hts
      cases ts with
      | nil => rfl
      | cons u us =>
        rw [takeSwitch.eq_def]
        simp only
        rw [if_neg (unled_word_iff.mp (hr rfl))]
        rfl
    · obtain rfl : ts = m.token :: l.token :: r := hts
      have hl := l.kind_eq
      rw [takeSwitch, if_pos (isWord_iff.mpr m.kind_eq)]
      show _ = Except.ok (l.value, r)
      cases hv : l.value with
      | true => rw [if_pos (isWord_iff.mpr (by rw [hl, hv]; rfl))]
      | false =>
        rw [if_neg (by rw [isWord_iff, hl, hv]; decide),
          if_pos (isWord_iff.mpr (by rw [hl, hv]; rfl))]

/-- A request that is read is derived, up to what ends it. -/
theorem exists_of_takeSpec {spec : PluginSpec} (ht : t.isWord "id")
    (h : takeSpec last t.line ts = .ok (spec, r)) :
    ∃ (x : SpecTree) (mid : List Token), t :: ts = x.tokens ++ mid ∧ x.spec = spec ∧
      takeEnd true mid = .ok ((), r) := by
  obtain ⟨⟨id, ts₁⟩, hid, h⟩ := bind_eq_ok h
  obtain ⟨⟨version, ts₂⟩, hversion, h⟩ := bind_eq_ok h
  obtain ⟨⟨apply, ts₃⟩, hswitch, h⟩ := bind_eq_ok h
  obtain ⟨⟨⟨⟩, ts₄⟩, hend, h⟩ := bind_eq_ok h
  cases h
  obtain ⟨m, rfl⟩ := exists_mark (isWord_iff.mp ht)
  obtain ⟨l, rfl, rfl⟩ := takeText_eq_ok_iff.mp hid
  obtain ⟨v, rfl, rfl, -⟩ := takeVersion_eq_ok_iff.mp hversion
  obtain ⟨s, rfl, rfl, -⟩ := takeSwitch_eq_ok_iff.mp hswitch
  exact ⟨⟨m, l, v, s⟩, ts₃, by simp [SpecTree.tokens, SpecTree.others], rfl, hend⟩

/-- A derived request is read, if something that ends it stands behind. -/
theorem takeSpec_of_tree (x : SpecTree) (hend : takeEnd true ts = .ok ((), r)) :
    takeSpec last x.word.token.line (x.others ++ ts) = .ok (x.spec, r) := by
  obtain ⟨m, l, v, s⟩ := x
  -- Neither `version` nor `apply` ends a request, so a part that is left out is not read.
  have hts : Ends true ts := exists_takeEnd_iff.mp ⟨r, hend⟩
  have hne : "apply" ≠ "version" := by decide
  have hid : takeText last "id" (l.token :: (optional v ++ (optional s ++ ts))) =
      .ok (l.value, optional v ++ (optional s ++ ts)) := takeText_eq_ok_iff.mpr ⟨l, rfl, rfl⟩
  have hversion : takeVersion last (optional v ++ (optional s ++ ts)) =
      .ok (optionalValue v, optional s ++ ts) :=
    takeVersion_eq_ok_iff.mpr ⟨v, rfl, rfl, fun _ => optional_unled hne hts.unled⟩
  have hswitch : takeSwitch m.token.line (optional s ++ ts) =
      .ok ((optionalValue s).getD true, ts) :=
    takeSwitch_eq_ok_iff.mpr ⟨s, rfl, rfl, fun _ => hts.unled⟩
  rw [SpecTree.others, List.cons_append, List.append_assoc, takeSpec, hid]
  simp only [bind, Except.bind, hversion, hswitch, hend]
  rfl

/-! ## 3. Lists of elements -/

/-- A loop over elements with the tokens `w`, which answers what it read and what is left: it skips
what separates elements, and then stops or takes one with what ends it. -/
structure Loop {β γ : Type} (inBlock : Bool) (w : α → List Token) (value : α → β)
    (stop : List Token → γ → Prop) (loop : List Token → List β → γ → Prop) : Prop where
  stops : ∀ {ts r}, stop ts r → Stops inBlock ts
  skip : ∀ {ts vs r}, loop (ts.dropWhile Token.isTerminator) vs r ↔ loop ts vs r
  step : ∀ {ts vs r}, Unled terminatorKind ts → (loop ts vs r ↔
    (stop ts r ∧ vs = []) ∨ ∃ x mid us, ts = w x ++ mid ∧ Ends inBlock mid ∧
      loop mid us r ∧ vs = value x :: us)

namespace Loop

variable {β γ : Type} {w : α → List Token} {value : α → β} {stop : List Token → γ → Prop}
  {loop : List Token → List β → γ → Prop} {vs : List β} {c : γ}

/-- What such a loop reads is a list of its elements. -/
theorem exists_listing (h : Loop inBlock w value stop loop) (hw : Worded w)
    (hl : loop ts vs c) :
    ∃ (d : Listing α) (e : List Token), ts = d.tokens w ++ e ∧ d.toList.map value = vs ∧
      stop e c := by
  -- By induction on how many tokens are left: terminators and an element are taken off.
  induction hn : ts.length using Nat.strongRecOn generalizing ts vs with
  | ind n ih =>
    obtain ⟨lead, hts, hu⟩ := (dropWhile_eq_iff fun _ => isTerminator_iff).mp
      (rfl : ts.dropWhile Token.isTerminator = _)
    rw [← h.skip, h.step hu] at hl
    rcases hl with ⟨hr, rfl⟩ | ⟨x, mid, us, hx, hmid, hl, rfl⟩
    · exact ⟨⟨lead, none⟩, _, by rw [Listing.tokens_none, ← hts], rfl, hr⟩
    · have hlt : mid.length < n := by
        obtain ⟨t, us, -, hwx, -⟩ := hw x
        rw [← hn, hts, hx, hwx]
        simp only [List.length_append, List.length_cons]
        omega
      obtain ⟨d, e, rfl, rfl, hr⟩ := ih mid.length hlt hl rfl
      -- What ends the element begins the list behind it.
      obtain ⟨i, rfl, rfl⟩ := Listing.exists_behind hw x hmid
      exact ⟨⟨lead, some i⟩, e, by rw [Listing.tokens_some, ← hx, ← hts],
        by rw [Listing.toList_some, List.map_cons], hr⟩

/-- Such a loop reads every list of its elements. -/
theorem of_listing (h : Loop inBlock w value stop loop) (hw : Worded w) {e : List Token}
    (hr : stop e c) (d : Listing α) :
    loop (d.tokens w ++ e) (d.toList.map value) c := by
  have he := h.stops hr
  have hskip (lead : List Terminator) {us : List Token} (hu : Unled terminatorKind us) :
      (lead.map Leaf.token ++ us).dropWhile Token.isTerminator = us :=
    (dropWhile_eq_iff fun _ => isTerminator_iff).mpr ⟨lead, rfl, hu⟩
  induction d using Listing.inductionOn with
  | blank lead =>
    rw [← h.skip, Listing.tokens_none, hskip lead he.unled, h.step he.unled]
    exact .inl ⟨hr, rfl⟩
  | step lead i ih =>
    rw [← h.skip, Listing.tokens_some, hskip lead (hw.unled _), h.step (hw.unled _)]
    exact .inr ⟨i.first, _, _, rfl, i.ends_behind he, ih,
      by rw [Listing.toList_some, List.map_cons]⟩

end Loop

theorem dropWhile_of_unled (hu : Unled terminatorKind ts) :
    ts.dropWhile Token.isTerminator = ts :=
  (dropWhile_eq_iff fun _ => isTerminator_iff).mpr ⟨[], rfl, hu⟩

theorem takeSpecs_step {specs : List PluginSpec} (hu : Unled terminatorKind ts) :
    takeSpecs last line ts = .ok (specs, r) ↔
      ((∃ closing : Mark .closeBrace, ts = closing.token :: r) ∧ specs = []) ∨
      ∃ x mid us, ts = SpecTree.tokens x ++ mid ∧ Ends true mid ∧
        takeSpecs last line mid = .ok (us, r) ∧ specs = x.spec :: us := by
  rw [takeSpecs_eq_ok_iff]
  constructor
  · intro h
    cases h with
    | closing next brace =>
      obtain ⟨closing, rfl⟩ := exists_mark brace
      exact .inl ⟨⟨closing, (dropWhile_of_unled hu).symm.trans next⟩, rfl⟩
    | request next word read others =>
      obtain ⟨x, mid, hx, rfl, hend⟩ := exists_of_takeSpec word read
      refine .inr ⟨x, mid, _, ?_, exists_takeEnd_iff.mp ⟨_, hend⟩, ?_, rfl⟩
      · rw [← hx, ← next, dropWhile_of_unled hu]
      · rw [← takeSpecs_of_takeEnd hend]
        exact others.takeSpecs_eq line
  · rintro (⟨⟨closing, rfl⟩, rfl⟩ | ⟨x, mid, us, rfl, hmid, hrest, rfl⟩)
    · exact .closing (dropWhile_of_unled hu) closing.kind_eq
    · obtain ⟨ts', hend⟩ := exists_takeEnd_iff.mpr hmid
      rw [← takeSpecs_of_takeEnd hend] at hrest
      exact .request (dropWhile_of_unled hu) (isWord_iff.mpr x.word.kind_eq)
        (takeSpec_of_tree x hend) (takeSpecs_eq_ok_iff.mp hrest)

theorem loop_takeSpecs (last line : Nat) :
    Loop true SpecTree.tokens SpecTree.spec
      (fun ts r => ∃ closing : Mark .closeBrace, ts = closing.token :: r)
      (fun ts specs r => takeSpecs last line ts = .ok (specs, r)) where
  stops := by rintro ts r ⟨closing, rfl⟩; exact closing.stops
  skip := by simp only [takeSpecs_dropWhile, implies_true]
  step := takeSpecs_step

/-! ## 4. Statements -/

theorem takeForm_plugins (h : t.kind = .word "plugins") :
    takeForm last t ts =
      takeKind last .openBrace "'\x7b' after plugins" (ts.dropWhile Token.isLineFeed) >>= fun x =>
        takeSpecs last t.line x.2 >>= fun y => .ok (.plugins y.1, y.2) := by
  simp only [takeForm, h]
  rw [if_pos trivial]
  rfl

theorem takeForm_println (h : t.kind = .word "println") :
    takeForm last t ts = takeText last "println" ts >>= fun x => .ok (.println x.1, x.2) := by
  simp only [takeForm, h]
  rw [if_neg (by decide), if_pos trivial]
  rfl

theorem takeForm_apply (h : t.kind = .word "apply") :
    takeForm last t ts = takeKind last (.word "plugin") "'plugin'" ts >>= fun x =>
      takeKind last .colon "':'" x.2 >>= fun y => takeText last "apply plugin:" y.2 >>= fun z =>
        .ok (.applyPlugin z.1, z.2) := by
  simp only [takeForm, h]
  rw [if_neg (by decide), if_neg (by decide), if_pos trivial]
  rfl

theorem takeForm_key (key : {key : String // key ≠ ""}) (h : t.kind = keyKind key) :
    takeForm last t ts = takeKind last .equals "'='" ts >>= fun x =>
      takeText last ("ext." ++ key) x.2 >>= fun y => .ok (.setProperty key y.1, y.2) := by
  have hkey : propertyKey ("ext." ++ key.val) = some key.val :=
    propertyKey_eq_some_iff.mpr ⟨key.property, rfl⟩
  simp only [takeForm, h, keyKind]
  rw [if_neg (key_ne key "plugins" (by decide)), if_neg (key_ne key "println" (by decide)),
    if_neg (key_ne key "apply" (by decide)), hkey]
  rfl

/-- A statement that is read is derived. -/
theorem exists_of_takeForm {form : Form} (h : takeForm last t ts = .ok (form, r)) :
    ∃ x : StatementTree, t :: ts = x.tokens ++ r ∧ x.form = form := by
  cases formRead_of_takeForm h with
  | plugins hword hbrace hread =>
    obtain ⟨word, rfl⟩ := exists_mark hword
    obtain ⟨opening, hbrace⟩ := takeKind_eq_ok_iff.mp hbrace
    obtain ⟨breaks, rfl, -⟩ := (dropWhile_eq_iff fun _ => isLineFeed_iff).mp hbrace
    obtain ⟨d, e, rfl, rfl, closing, rfl⟩ :=
      (loop_takeSpecs last word.token.line).exists_listing SpecTree.worded hread
    exact ⟨.plugins word breaks opening d closing, by simp [StatementTree.tokens,
      StatementTree.first, StatementTree.others], rfl⟩
  | println hword hread =>
    obtain ⟨word, rfl⟩ := exists_mark hword
    obtain ⟨text, rfl, rfl⟩ := takeText_eq_ok_iff.mp hread
    exact ⟨.println word text, rfl, rfl⟩
  | applyPlugin hword hplugin hcolon hread =>
    obtain ⟨word, rfl⟩ := exists_mark hword
    obtain ⟨plugin, rfl⟩ := takeKind_eq_ok_iff.mp hplugin
    obtain ⟨colon, rfl⟩ := takeKind_eq_ok_iff.mp hcolon
    obtain ⟨id, rfl, rfl⟩ := takeText_eq_ok_iff.mp hread
    exact ⟨.applyPlugin word plugin colon id, rfl, rfl⟩
  | setProperty hword hsets hequals hread =>
    obtain ⟨hne, rfl⟩ := propertyKey_eq_some_iff.mp hsets
    obtain ⟨equals, rfl⟩ := takeKind_eq_ok_iff.mp hequals
    obtain ⟨value, rfl, rfl⟩ := takeText_eq_ok_iff.mp hread
    exact ⟨.setProperty ⟨t, ⟨_, hne⟩, hword⟩ equals value, rfl, rfl⟩

/-- A derived statement is read, whatever stands behind it. -/
theorem takeForm_of_tree (x : StatementTree) :
    takeForm last x.first (x.others ++ r) = .ok (x.form, r) := by
  have hk := x.kind_first
  cases x with
  | plugins word breaks opening specs closing =>
    have hdrop : ((StatementTree.plugins word breaks opening specs closing).others ++
        r).dropWhile Token.isLineFeed =
          opening.token :: (specs.tokens SpecTree.tokens ++ closing.token :: r) :=
      (dropWhile_eq_iff fun _ => isLineFeed_iff).mpr
        ⟨breaks, by simp [StatementTree.others], opening.unled⟩
    have hspecs : takeSpecs last word.token.line
        (specs.tokens SpecTree.tokens ++ closing.token :: r) =
          .ok (specs.toList.map SpecTree.spec, r) :=
      (loop_takeSpecs last word.token.line).of_listing SpecTree.worded ⟨closing, rfl⟩ specs
    rw [takeForm_plugins hk, hdrop, takeKind_eq_ok_iff.mpr ⟨opening, rfl⟩]
    show takeSpecs last word.token.line _ >>= _ = _
    rw [hspecs]
    rfl
  | println word text =>
    rw [takeForm_println hk]
    show takeText last "println" (text.token :: r) >>= _ = _
    rw [takeText_eq_ok_iff.mpr ⟨text, rfl, rfl⟩]
    rfl
  | applyPlugin word plugin colon id =>
    rw [takeForm_apply hk]
    show takeKind last _ _ (plugin.token :: colon.token :: id.token :: r) >>= _ = _
    rw [takeKind_eq_ok_iff.mpr ⟨plugin, rfl⟩]
    show takeKind last _ _ (colon.token :: id.token :: r) >>= _ = _
    rw [takeKind_eq_ok_iff.mpr ⟨colon, rfl⟩]
    show takeText last _ (id.token :: r) >>= _ = _
    rw [takeText_eq_ok_iff.mpr ⟨id, rfl, rfl⟩]
    rfl
  | setProperty key equals value =>
    rw [takeForm_key key.value hk]
    show takeKind last _ _ (equals.token :: value.token :: r) >>= _ = _
    rw [takeKind_eq_ok_iff.mpr ⟨equals, rfl⟩]
    show takeText last _ (value.token :: r) >>= _ = _
    rw [takeText_eq_ok_iff.mpr ⟨value, rfl, rfl⟩]
    rfl

theorem takeStatements_step {ss : List Statement} (hu : Unled terminatorKind ts) :
    takeStatements last ts = .ok ss ↔
      (ts = [] ∧ ss = []) ∨ ∃ x mid us, ts = StatementTree.tokens x ++ mid ∧ Ends false mid ∧
        takeStatements last mid = .ok us ∧ ss = x.statement :: us := by
  constructor
  · intro h
    rw [takeStatements_eq, dropWhile_of_unled hu] at h
    cases ts with
    | nil =>
      cases h
      exact .inl ⟨rfl, rfl⟩
    | cons t ts =>
      obtain ⟨⟨s, ts'⟩, hs, h⟩ := bind_eq_ok h
      obtain ⟨us, hrest, rfl⟩ := map_eq_ok h
      obtain ⟨⟨form, mid⟩, hform, hs⟩ := bind_eq_ok hs
      obtain ⟨⟨⟨⟩, ts''⟩, hend, hs⟩ := bind_eq_ok hs
      cases hs
      obtain ⟨x, hx, rfl⟩ := exists_of_takeForm hform
      -- The token that was read begins the tree, and the rest is read from behind its end.
      obtain rfl : t = x.first := (List.cons.inj hx).1
      rw [takeStatements_of_takeEnd hend] at hrest
      exact .inr ⟨x, mid, us, hx, exists_takeEnd_iff.mp ⟨_, hend⟩, hrest, rfl⟩
  · rintro (⟨rfl, rfl⟩ | ⟨x, mid, us, rfl, hmid, hrest, rfl⟩)
    · rw [takeStatements_eq]
      rfl
    · obtain ⟨ts', hend⟩ := exists_takeEnd_iff.mpr hmid
      have hs : takeStatement last x.first (x.others ++ mid) = .ok (x.statement, ts') := by
        simp only [takeStatement, bind, Except.bind, takeForm_of_tree x, hend]
        rfl
      rw [takeStatements_eq, dropWhile_of_unled hu]
      show takeStatement last x.first (x.others ++ mid) >>= _ = _
      rw [hs]
      show (takeStatements last ts').map _ = _
      rw [takeStatements_of_takeEnd hend, hrest]
      rfl

theorem loop_takeStatements (last : Nat) :
    Loop false StatementTree.tokens StatementTree.statement (fun ts (_ : Unit) => ts = [])
      (fun ts ss _ => takeStatements last ts = .ok ss) where
  stops h := h
  skip := by simp only [takeStatements_dropWhile, implies_true]
  step := takeStatements_step

/-- A script is read exactly where one is derived. -/
theorem parse_eq_ok_iff {ss : List Statement} :
    parse ts = .ok ss ↔ ∃ d : ScriptTree, d.tokens = ts ∧ d.statements = ss := by
  have hloop := loop_takeStatements (lastLine ts)
  constructor
  · intro h
    obtain ⟨d, e, hts, hss, rfl⟩ := hloop.exists_listing StatementTree.worded (c := ()) h
    exact ⟨d, by rw [hts, List.append_nil]; rfl, hss⟩
  · rintro ⟨d, rfl, rfl⟩
    have h : takeStatements (lastLine d.tokens) (d.tokens ++ []) = .ok d.statements :=
      hloop.of_listing StatementTree.worded (c := ()) rfl d
    rwa [List.append_nil] at h

/-- **The reader accepts exactly the grammar.**  A run of tokens is read as some statements exactly
if it has a derivation that stands for them.  It has at most one, and the line of each statement and
request is that of the first token derived from it. -/
theorem parse_accepts_grammar :
    (∀ ts ss, parse ts = .ok ss ↔ ∃ d : ScriptTree, d.tokens = ts ∧ d.statements = ss) ∧
    Function.Injective ScriptTree.tokens ∧
    (∀ x : StatementTree, x.tokens.head?.map Token.line = some x.statement.line) ∧
    ∀ x : SpecTree, x.tokens.head?.map Token.line = some x.spec.line :=
  ⟨fun _ _ => parse_eq_ok_iff, ScriptTree.tokens_injective, fun _ => rfl,
    fun _ => rfl⟩

end ScriptPlugins.Language
