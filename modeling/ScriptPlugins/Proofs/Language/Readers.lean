import ScriptPlugins.Language.Statement
import ScriptPlugins.Proofs.Language.Blocks

/-!
# Readers — what the readers of statements take, and what they look at

A reader sees kinds and lines and nothing else of its tokens.  The readers inside a plugins block
take no braces, so what stands behind a closing brace changes neither what they answer nor how they
fail.
-/

namespace ScriptPlugins.Language

/-- What a reader answers, with its leftover tokens changed. -/
abbrev mapRest {α : Type} (f : List Token → List Token) (r : Except ParseError (α × List Token)) :
    Except ParseError (α × List Token) := r.map fun (a, rest) => (a, f rest)

/-! ## 1. One step of the loops -/

theorem takeSpecs_eq (last line : Nat) (ts : List Token) :
    takeSpecs last line ts =
      match ts.dropWhile Token.isTerminator with
      | [] => .error ⟨line, .openBlock⟩
      | t :: rest =>
        if t.kind = .closeBrace then .ok ([], rest)
        else if t.isWord "id" then
          takeSpec last t.line rest >>= fun (spec, rest) =>
            (takeSpecs last line rest).map fun (specs, rest) => (spec :: specs, rest)
        else .error ⟨t.line, .notASpec⟩ := by
  rw [takeSpecs]
  split
  next hd => rw [hd]
  next t rest hd =>
    rw [hd]
    simp only
    split
    · rfl
    · split
      · split
        next e he => rw [he]; rfl
        next spec rest' hs => rw [hs]; rfl
      · rfl

theorem takeStatements_eq (last : Nat) (ts : List Token) :
    takeStatements last ts =
      match ts.dropWhile Token.isTerminator with
      | [] => .ok []
      | t :: rest =>
        takeStatement last t rest >>= fun (s, rest) =>
          (takeStatements last rest).map (s :: ·) := by
  rw [takeStatements]
  split
  next hd => rw [hd]
  next t rest hd =>
    rw [hd]
    simp only
    split
    next e he => rw [he]; rfl
    next s rest' hs => rw [hs]; rfl

theorem SpecsRead.takeSpecs_eq {last : Nat} {ts rest : List Token} {specs : List PluginSpec}
    (h : SpecsRead last ts specs rest) (line : Nat) :
      takeSpecs last line ts = .ok (specs, rest) := by
  induction h with
  | closing next brace =>
    rw [Language.takeSpecs_eq, next]
    exact if_pos brace
  | @request ts us vs rest t spec specs next word read _ ih =>
    have hk : t.kind = .word "id" := by simpa [Token.isWord] using word
    rw [Language.takeSpecs_eq, next]
    simp only
    rw [if_neg (by rw [hk]; decide), if_pos word, read]
    show (takeSpecs last line vs).map _ = _
    rw [ih]
    rfl

theorem takeSpecs_eq_ok_iff {last line : Nat} {ts rest : List Token} {specs : List PluginSpec} :
    takeSpecs last line ts = .ok (specs, rest) ↔ SpecsRead last ts specs rest :=
  ⟨specsRead_of_takeSpecs, fun h => h.takeSpecs_eq line⟩

/-- How statements are read: one after the other, until only terminators are left. -/
inductive StatementsRead (last : Nat) : List Token → List Statement → Prop
  | nil {ts : List Token} (next : ts.dropWhile Token.isTerminator = []) : StatementsRead last ts []
  | cons {ts us vs : List Token} {t : Token} {s : Statement} {ss : List Statement}
      (next : ts.dropWhile Token.isTerminator = t :: us)
      (read : takeStatement last t us = .ok (s, vs)) (others : StatementsRead last vs ss) :
      StatementsRead last ts (s :: ss)

theorem takeStatements_eq_ok_iff {last : Nat} {ts : List Token} {ss : List Statement} :
    takeStatements last ts = .ok ss ↔ StatementsRead last ts ss := by
  refine ⟨fun h => ?_, fun h => ?_⟩
  · induction hn : ts.length using Nat.strongRecOn generalizing ts ss with
    | ind n ih =>
      have hl := length_dropWhile_le Token.isTerminator ts
      rw [takeStatements_eq] at h
      cases hd : ts.dropWhile Token.isTerminator with
      | nil =>
        rw [hd] at h
        cases h
        exact .nil hd
      | cons t us =>
        rw [hd] at h
        rw [hd, List.length_cons] at hl
        obtain ⟨⟨s, vs⟩, hs, h⟩ := bind_eq_ok h
        obtain ⟨ss', hothers, rfl⟩ := map_eq_ok h
        -- A statement takes tokens, so there are fewer for the others.
        have hlen : vs.length < us.length := length_of_takeStatement hs
        exact .cons hd hs (ih vs.length (by omega) hothers rfl)
  · induction h with
    | nil next =>
      rw [takeStatements_eq, next]
    | @cons ts us vs t s ss next read _ ih =>
      rw [takeStatements_eq, next]
      simp only
      rw [read]
      show (takeStatements last vs).map _ = _
      rw [ih]
      rfl

theorem dropWhile_idem (q : Token → Bool) (ts : List Token) :
    (ts.dropWhile q).dropWhile q = ts.dropWhile q := by
  cases h : ts.dropWhile q with
  | nil => rfl
  | cons t us =>
    have ht := List.head?_dropWhile_not q ts
    rw [h] at ht
    exact List.dropWhile_cons_of_neg (by simpa using ht)

/-- Terminators before a statement are skipped. -/
theorem takeStatements_dropWhile (last : Nat) (ts : List Token) :
    takeStatements last (ts.dropWhile Token.isTerminator) = takeStatements last ts := by
  rw [takeStatements_eq, takeStatements_eq last ts, dropWhile_idem]

theorem takeSpecs_dropWhile (last line : Nat) (ts : List Token) :
    takeSpecs last line (ts.dropWhile Token.isTerminator) = takeSpecs last line ts := by
  rw [takeSpecs_eq, takeSpecs_eq last line ts, dropWhile_idem]

/-- What ends an element is skipped in front of the next one. -/
theorem dropWhile_of_takeEnd {inBlock : Bool} {ts rest : List Token}
    (h : takeEnd inBlock ts = .ok ((), rest)) :
    rest.dropWhile Token.isTerminator = ts.dropWhile Token.isTerminator := by
  cases ts with
  | nil => cases h; rfl
  | cons u us =>
    rw [takeEnd] at h
    split at h
    next hu => cases h; rw [List.dropWhile_cons_of_pos hu]
    next =>
      split at h
      next => cases h; rfl
      next => cases h

/-- What ends a request makes no difference to those that follow. -/
theorem takeSpecs_of_takeEnd {last line : Nat} {ts rest : List Token}
    (h : takeEnd true ts = .ok ((), rest)) :
    takeSpecs last line rest = takeSpecs last line ts := by
  rw [← takeSpecs_dropWhile, dropWhile_of_takeEnd h, takeSpecs_dropWhile]

/-- What ends a statement makes no difference to those that follow. -/
theorem takeStatements_of_takeEnd {last : Nat} {ts rest : List Token}
    (h : takeEnd false ts = .ok ((), rest)) :
    takeStatements last rest = takeStatements last ts := by
  rw [← takeStatements_dropWhile, dropWhile_of_takeEnd h, takeStatements_dropWhile]

/-! ## 2. Kinds and lines are all that counts -/

namespace Token

/-- A token without its span. -/
def bare (t : Token) : Token := ⟨t.kind, t.line, 0, 0⟩

@[simp] theorem kind_bare (t : Token) : t.bare.kind = t.kind := rfl

@[simp] theorem line_bare (t : Token) : t.bare.line = t.line := rfl

@[simp] theorem isTerminator_bare (t : Token) : t.bare.isTerminator = t.isTerminator := rfl

@[simp] theorem isLineFeed_bare (t : Token) : t.bare.isLineFeed = t.isLineFeed := rfl

@[simp] theorem isWord_bare (name : String) (t : Token) : t.bare.isWord name = t.isWord name := rfl

theorem map_bare_eq_of_placed {ts us : List Token} (h : ts.map placed = us.map placed) :
    ts.map bare = us.map bare := by
  have hb : bare = (fun p => ⟨p.1, p.2, 0, 0⟩) ∘ placed := rfl
  rw [hb, ← List.map_map, h, List.map_map]

end Token

/-- What a reader answers on tokens without spans is what it answers on the tokens. -/
def SeesBare {α : Type} (reader : List Token → Except ParseError (α × List Token)) : Prop :=
  ∀ ts, reader (ts.map Token.bare) = mapRest (List.map Token.bare) (reader ts)

namespace SeesBare

theorem bind {α β : Type} {r : List Token → Except ParseError (α × List Token)}
    {s : α → List Token → Except ParseError (β × List Token)} (hr : SeesBare r)
    (hs : ∀ a, SeesBare (s a)) : SeesBare fun ts => r ts >>= fun x => s x.1 x.2 := by
  intro ts
  simp only [hr ts]
  cases r ts with
  | error e => rfl
  | ok x => exact hs x.1 x.2

theorem pure {α : Type} (a : α) : SeesBare fun ts => .ok (a, ts) := fun _ => rfl

end SeesBare

theorem takeKind_bare (last : Nat) (kind : TokenKind) (what : String) :
    SeesBare (takeKind last kind what) := by
  intro ts
  cases ts with
  | nil => rfl
  | cons t ts =>
    rw [List.map_cons, takeKind, takeKind, Token.kind_bare, Token.line_bare]
    by_cases h : t.kind = kind
    · rw [if_pos h, if_pos h]; rfl
    · rw [if_neg h, if_neg h]; rfl

theorem takeText_bare (last : Nat) (after : String) : SeesBare (takeText last after) := by
  intro ts
  cases ts with
  | nil => rfl
  | cons t ts =>
    rw [List.map_cons, takeText, takeText, Token.kind_bare, Token.line_bare]
    cases t.kind <;> rfl

theorem takeEnd_bare (inBlock : Bool) : SeesBare (takeEnd inBlock) := by
  intro ts
  cases ts with
  | nil => rfl
  | cons t ts =>
    rw [List.map_cons, takeEnd, takeEnd, Token.kind_bare, Token.line_bare, Token.isTerminator_bare]
    by_cases ht : t.isTerminator
    · rw [if_pos ht, if_pos ht]; rfl
    · rw [if_neg ht, if_neg ht]
      by_cases hc : inBlock ∧ t.kind = .closeBrace
      · rw [if_pos hc, if_pos hc]; rfl
      · rw [if_neg hc, if_neg hc]; rfl

theorem takeVersion_bare (last : Nat) : SeesBare (takeVersion last) := by
  intro ts
  cases ts with
  | nil => rfl
  | cons t ts =>
    rw [List.map_cons, takeVersion, takeVersion, Token.isWord_bare]
    by_cases hv : t.isWord "version"
    · rw [if_pos hv, if_pos hv, takeText_bare]
      cases takeText last "version" ts <;> rfl
    · rw [if_neg hv, if_neg hv]; rfl

theorem takeSwitch_bare (line : Nat) : SeesBare (takeSwitch line) := by
  intro ts
  cases ts with
  | nil => rfl
  | cons t ts =>
    rw [List.map_cons, takeSwitch.eq_def, takeSwitch.eq_def _ (t :: ts)]
    simp only
    rw [Token.isWord_bare]
    by_cases ha : t.isWord "apply"
    · rw [if_pos ha, if_pos ha]
      cases ts with
      | nil => rfl
      | cons u us =>
        simp only [List.map_cons]
        rw [Token.isWord_bare, Token.isWord_bare]
        by_cases h₁ : u.isWord "true"
        · rw [if_pos h₁, if_pos h₁]; rfl
        · rw [if_neg h₁, if_neg h₁]
          by_cases h₂ : u.isWord "false"
          · rw [if_pos h₂, if_pos h₂]; rfl
          · rw [if_neg h₂, if_neg h₂]; rfl
    · rw [if_neg ha, if_neg ha]; rfl

theorem takeSpec_bare (last line : Nat) : SeesBare (takeSpec last line) :=
  (takeText_bare last "id").bind fun id => (takeVersion_bare last).bind fun version =>
    (takeSwitch_bare line).bind fun apply => (takeEnd_bare true).bind fun _ =>
      SeesBare.pure (⟨id, version, apply, line⟩ : PluginSpec)

theorem dropWhile_bare {q : Token → Bool} (hq : ∀ t, q t.bare = q t) (ts : List Token) :
    (ts.map Token.bare).dropWhile q = (ts.dropWhile q).map Token.bare := by
  rw [List.dropWhile_map]
  have : q ∘ Token.bare = q := funext hq
  rw [this]

theorem takeSpecs_bare (last line : Nat) : SeesBare (takeSpecs last line) := by
  intro ts
  induction hn : ts.length using Nat.strongRecOn generalizing ts with
  | ind n ih =>
    have hl := length_dropWhile_le Token.isTerminator ts
    rw [takeSpecs_eq, takeSpecs_eq last line ts, dropWhile_bare Token.isTerminator_bare]
    cases hd : ts.dropWhile Token.isTerminator with
    | nil => rfl
    | cons t rest =>
      rw [hd, List.length_cons] at hl
      simp only [List.map_cons]
      rw [Token.kind_bare, Token.line_bare, Token.isWord_bare]
      by_cases hc : t.kind = .closeBrace
      · rw [if_pos hc, if_pos hc]; rfl
      · rw [if_neg hc, if_neg hc]
        by_cases hi : t.isWord "id"
        · rw [if_pos hi, if_pos hi, takeSpec_bare]
          cases hs : takeSpec last t.line rest with
          | error e => rfl
          | ok x =>
            have hx := length_of_takeSpec hs
            show (takeSpecs last line (x.2.map Token.bare)).map _ =
              mapRest _ ((takeSpecs last line x.2).map _)
            rw [ih x.2.length (by omega) x.2 rfl]
            cases takeSpecs last line x.2 <;> rfl
        · rw [if_neg hi, if_neg hi]; rfl

theorem takeForm_bare (last : Nat) (t : Token) (ts : List Token) :
    takeForm last t.bare (ts.map Token.bare) =
      mapRest (List.map Token.bare) (takeForm last t ts) := by
  unfold takeForm
  rw [Token.kind_bare, Token.line_bare]
  cases t.kind with
  | word name =>
    simp only
    by_cases hp : name = "plugins"
    · rw [if_pos hp, if_pos hp, dropWhile_bare Token.isLineFeed_bare]
      exact ((takeKind_bare last .openBrace _).bind fun _ =>
        (takeSpecs_bare last t.line).bind fun specs => SeesBare.pure (Form.plugins specs)) _
    · rw [if_neg hp, if_neg hp]
      by_cases hl : name = "println"
      · rw [if_pos hl, if_pos hl]
        exact ((takeText_bare last _).bind fun text => SeesBare.pure (Form.println text)) _
      · rw [if_neg hl, if_neg hl]
        by_cases ha : name = "apply"
        · rw [if_pos ha, if_pos ha]
          exact ((takeKind_bare last _ _).bind fun _ => (takeKind_bare last _ _).bind fun _ =>
            (takeText_bare last _).bind fun id => SeesBare.pure (Form.applyPlugin id)) _
        · rw [if_neg ha, if_neg ha]
          cases propertyKey name with
          | none => rfl
          | some key =>
            exact ((takeKind_bare last _ _).bind fun _ => (takeText_bare last _).bind fun value =>
              SeesBare.pure (Form.setProperty key value)) _
  | _ => rfl

theorem takeStatement_bare (last : Nat) (t : Token) (ts : List Token) :
    takeStatement last t.bare (ts.map Token.bare) =
      mapRest (List.map Token.bare) (takeStatement last t ts) := by
  unfold takeStatement
  rw [takeForm_bare]
  cases takeForm last t ts with
  | error e => rfl
  | ok x => exact ((takeEnd_bare false).bind fun _ => SeesBare.pure _) x.2

theorem takeStatements_bare (last : Nat) (ts : List Token) :
    takeStatements last (ts.map Token.bare) = takeStatements last ts := by
  induction hn : ts.length using Nat.strongRecOn generalizing ts with
  | ind n ih =>
    have hl := length_dropWhile_le Token.isTerminator ts
    rw [takeStatements_eq, takeStatements_eq last ts, dropWhile_bare Token.isTerminator_bare]
    cases hd : ts.dropWhile Token.isTerminator with
    | nil => rfl
    | cons t rest =>
      rw [hd, List.length_cons] at hl
      simp only [List.map_cons, takeStatement_bare]
      cases hs : takeStatement last t rest with
      | error e => rfl
      | ok x =>
        have hx := length_of_takeStatement hs
        show (takeStatements last (x.2.map Token.bare)).map _ = (takeStatements last x.2).map _
        rw [ih x.2.length (by omega) x.2 rfl]

/-- Tokens of the same kinds on the same lines are the same statements. -/
theorem takeStatements_eq_of_placed (last : Nat) {ts us : List Token}
    (h : ts.map Token.placed = us.map Token.placed) :
    takeStatements last ts = takeStatements last us := by
  rw [← takeStatements_bare, Token.map_bare_eq_of_placed h, takeStatements_bare]

/-! ## 3. Readers that take no braces -/

namespace Token

/-- A token that is no brace. -/
def Plain (t : Token) : Prop := t.kind ≠ .openBrace ∧ t.kind ≠ .closeBrace

/-- Whether a closing brace stands among some tokens. -/
def Closes (ts : List Token) : Prop := ∃ t ∈ ts, t.kind = .closeBrace

end Token

theorem Token.Closes.of_plain {us ts : List Token} (h : Token.Closes (us ++ ts))
    (hu : ∀ u ∈ us, u.Plain) : Token.Closes ts := by
  obtain ⟨t, ht, hc⟩ := h
  rcases List.mem_append.mp ht with h | h
  · exact absurd hc (hu t h).2
  · exact ⟨t, h, hc⟩

theorem Token.Closes.tail {t : Token} {ts : List Token} (h : Token.Closes (t :: ts))
    (ht : t.kind ≠ .closeBrace) : Token.Closes ts := by
  obtain ⟨u, hu, hc⟩ := h
  rcases List.mem_cons.mp hu with rfl | h
  · exact absurd hc ht
  · exact ⟨u, h, hc⟩

/-- A reader, given the last line of its text, that takes no braces, and that looks neither behind
the next closing brace nor, if there is one, at the last line. -/
structure TakesPlain {α : Type} (r : Nat → List Token → Except ParseError (α × List Token)) :
    Prop where
  takes : ∀ {last xs a rest}, r last xs = .ok (a, rest) → ∃ us, xs = us ++ rest ∧ ∀ u ∈ us, u.Plain
  passes : ∀ {xs}, Token.Closes xs → ∀ last last' ys,
    r last (xs ++ ys) = mapRest (· ++ ys) (r last' xs)

namespace TakesPlain

theorem pure {α : Type} (a : α) : TakesPlain fun _ ts => .ok (a, ts) where
  takes h := by cases h; exact ⟨[], rfl, by simp⟩
  passes _ _ _ _ := rfl

theorem bind {α β : Type} {r : Nat → List Token → Except ParseError (α × List Token)}
    {s : α → Nat → List Token → Except ParseError (β × List Token)} (hr : TakesPlain r)
    (hs : ∀ a, TakesPlain (s a)) :
    TakesPlain fun last ts => r last ts >>= fun x => s x.1 last x.2 where
  takes {last xs b rest} h := by
    obtain ⟨⟨a, ts⟩, h₁, h₂⟩ := bind_eq_ok h
    obtain ⟨us, rfl, hus⟩ := hr.takes h₁
    obtain ⟨vs, rfl, hvs⟩ := (hs a).takes h₂
    refine ⟨us ++ vs, by rw [List.append_assoc], fun u hu => ?_⟩
    rcases List.mem_append.mp hu with h | h
    · exact hus u h
    · exact hvs u h
  passes {xs} hxs last last' ys := by
    rw [hr.passes hxs last last' ys]
    cases h : r last' xs with
    | error e => rfl
    | ok x =>
      obtain ⟨us, rfl, hus⟩ := hr.takes h
      exact (hs x.1).passes (hxs.of_plain hus) last last' ys

end TakesPlain

theorem takesPlain_takeText (after : String) : TakesPlain fun last => takeText last after where
  takes {last xs a rest} h := by
    cases xs with
    | nil => cases h
    | cons t ts =>
      rw [takeText] at h
      split at h
      next value hk =>
        cases h
        exact ⟨[t], rfl, by simp [Token.Plain, hk]⟩
      next => cases h
  passes {xs} hxs last last' ys := by
    cases xs with
    | nil => obtain ⟨t, ht, -⟩ := hxs; cases ht
    | cons t ts =>
      rw [List.cons_append, takeText, takeText]
      cases t.kind <;> rfl

theorem takesPlain_takeVersion : TakesPlain takeVersion where
  takes {last xs a rest} h := by
    rcases takeVersion_cases h with ⟨rfl, -⟩ | ⟨t, ts, value, rfl, ht, -, htext⟩
    · exact ⟨[], rfl, by simp⟩
    · obtain ⟨us, rfl, hus⟩ := (takesPlain_takeText "version").takes htext
      have hk : t.kind = .word "version" := by simpa [Token.isWord] using ht
      exact ⟨t :: us, rfl, by simpa [Token.Plain, hk] using hus⟩
  passes {xs} hxs last last' ys := by
    cases xs with
    | nil => obtain ⟨t, ht, -⟩ := hxs; cases ht
    | cons t ts =>
      rw [List.cons_append, takeVersion, takeVersion]
      by_cases hv : t.isWord "version"
      · have hk : t.kind = .word "version" := by simpa [Token.isWord] using hv
        rw [if_pos hv, if_pos hv,
          (takesPlain_takeText "version").passes (hxs.tail (by simp [hk])) last last' ys]
        cases takeText last' "version" ts <;> rfl
      · rw [if_neg hv, if_neg hv]; rfl

theorem takesPlain_takeSwitch (line : Nat) : TakesPlain fun _ => takeSwitch line where
  takes {last xs a rest} h := by
    rcases takeSwitch_cases h with ⟨rfl, -⟩ | ⟨t, u, rfl, ht, hu⟩
    · exact ⟨[], rfl, by simp⟩
    · have hk : t.kind = .word "apply" := by simpa [Token.isWord] using ht
      have hk' : u.kind = .word (bif a then "true" else "false") := by simpa [Token.isWord] using hu
      exact ⟨[t, u], rfl, by simp [Token.Plain, hk, hk']⟩
  passes {xs} hxs last last' ys := by
    cases xs with
    | nil => obtain ⟨t, ht, -⟩ := hxs; cases ht
    | cons t ts =>
      rw [List.cons_append, takeSwitch.eq_def, takeSwitch.eq_def _ (t :: ts)]
      simp only
      by_cases ha : t.isWord "apply"
      · have hk : t.kind = .word "apply" := by simpa [Token.isWord] using ha
        rw [if_pos ha, if_pos ha]
        cases ts with
        | nil =>
          -- A closing brace stands behind the word, so the tokens do not end here.
          obtain ⟨u, hu, -⟩ := hxs.tail (by simp [hk])
          cases hu
        | cons u us =>
          simp only [List.cons_append]
          by_cases h₁ : u.isWord "true"
          · rw [if_pos h₁, if_pos h₁]; rfl
          · rw [if_neg h₁, if_neg h₁]
            by_cases h₂ : u.isWord "false"
            · rw [if_pos h₂, if_pos h₂]; rfl
            · rw [if_neg h₂, if_neg h₂]; rfl
      · rw [if_neg ha, if_neg ha]; rfl

theorem plain_of_isTerminator {t : Token} (h : t.isTerminator) : t.Plain := by
  constructor <;> intro hk <;> simp [Token.isTerminator, TokenKind.isTerminator, hk] at h

theorem takesPlain_takeEnd (inBlock : Bool) : TakesPlain fun _ => takeEnd inBlock where
  takes {last xs a rest} h := by
    cases xs with
    | nil => cases h; exact ⟨[], rfl, by simp⟩
    | cons t ts =>
      rw [takeEnd] at h
      split at h
      next ht =>
        cases h
        exact ⟨[t], rfl, by simpa using plain_of_isTerminator ht⟩
      next =>
        split at h
        next => cases h; exact ⟨[], rfl, by simp⟩
        next => cases h
  passes {xs} hxs last last' ys := by
    cases xs with
    | nil => obtain ⟨t, ht, -⟩ := hxs; cases ht
    | cons t ts =>
      rw [List.cons_append, takeEnd, takeEnd]
      by_cases ht : t.isTerminator
      · rw [if_pos ht, if_pos ht]; rfl
      · rw [if_neg ht, if_neg ht]
        by_cases hc : inBlock ∧ t.kind = .closeBrace
        · rw [if_pos hc, if_pos hc]; rfl
        · rw [if_neg hc, if_neg hc]; rfl

theorem takesPlain_takeSpec (line : Nat) : TakesPlain fun last => takeSpec last line :=
  (takesPlain_takeText "id").bind fun id => takesPlain_takeVersion.bind fun version =>
    (takesPlain_takeSwitch line).bind fun apply => (takesPlain_takeEnd true).bind fun _ =>
      TakesPlain.pure (⟨id, version, apply, line⟩ : PluginSpec)

/-! ## 4. The requests of a block -/

theorem takeWhile_isTerminator_plain (ts : List Token) :
    ∀ t ∈ ts.takeWhile Token.isTerminator, t.Plain := fun _ h =>
  plain_of_isTerminator (List.mem_takeWhile_imp h)

/-- Requests are read up to the first brace, which closes. -/
theorem takeSpecs_eq_ok {last line : Nat} {xs rest : List Token} {specs : List PluginSpec}
    (h : takeSpecs last line xs = .ok (specs, rest)) :
    ∃ us close, xs = us ++ close :: rest ∧ (∀ u ∈ us, u.Plain) ∧ close.kind = .closeBrace := by
  replace h : SpecsRead last xs specs rest := specsRead_of_takeSpecs h
  induction h with
  | @closing ts rest t next brace =>
    have hts := List.takeWhile_append_dropWhile (p := Token.isTerminator) (l := ts)
    rw [next] at hts
    exact ⟨_, t, hts.symm, takeWhile_isTerminator_plain ts, brace⟩
  | @request ts us vs rest t spec specs next word read others ih =>
    have hts := List.takeWhile_append_dropWhile (p := Token.isTerminator) (l := ts)
    rw [next] at hts
    obtain ⟨own, rfl, hown⟩ := (takesPlain_takeSpec t.line).takes read
    obtain ⟨more, close, rfl, hmore, hclose⟩ := ih
    have hk : t.kind = .word "id" := by simpa [Token.isWord] using word
    refine ⟨ts.takeWhile Token.isTerminator ++ t :: (own ++ more), close, ?_, ?_, hclose⟩
    · conv_lhs => rw [← hts]
      simp
    · intro u hu
      rcases List.mem_append.mp hu with hu | hu
      · exact takeWhile_isTerminator_plain ts u hu
      · rcases List.mem_cons.mp hu with rfl | hu
        · simp [Token.Plain, hk]
        · exact (List.mem_append.mp hu).elim (hown u) (hmore u)

theorem dropWhile_append_of_cons {q : Token → Bool} {xs : List Token} {t : Token}
    {ts : List Token} (h : xs.dropWhile q = t :: ts) (ys : List Token) :
    (xs ++ ys).dropWhile q = t :: ts ++ ys := by
  rw [List.dropWhile_append, h]
  rfl

/-- What stands behind a closing brace does not count for the requests before it. -/
theorem takeSpecs_append {xs : List Token} (hxs : Token.Closes xs) (last last' line : Nat)
    (ys : List Token) :
    takeSpecs last line (xs ++ ys) = mapRest (· ++ ys) (takeSpecs last' line xs) := by
  -- A request may take several tokens, so the induction is on the length.
  induction hn : xs.length using Nat.strongRecOn generalizing xs with
  | ind n ih =>
    have hl := length_dropWhile_le Token.isTerminator xs
    have hcl : Token.Closes (xs.dropWhile Token.isTerminator) := by
      refine Token.Closes.of_plain ?_ (takeWhile_isTerminator_plain xs)
      rwa [List.takeWhile_append_dropWhile]
    cases hd : xs.dropWhile Token.isTerminator with
    | nil =>
      rw [hd] at hcl
      obtain ⟨t, ht, -⟩ := hcl
      cases ht
    | cons t ts =>
      rw [hd] at hcl hl
      rw [takeSpecs_eq, takeSpecs_eq last' line xs, dropWhile_append_of_cons hd, hd]
      simp only [List.cons_append]
      by_cases hc : t.kind = .closeBrace
      · rw [if_pos hc, if_pos hc]; rfl
      · rw [if_neg hc, if_neg hc]
        by_cases hi : t.isWord "id"
        · rw [if_pos hi, if_pos hi,
            (takesPlain_takeSpec t.line).passes (hcl.tail hc) last last' ys]
          cases hs : takeSpec last' t.line ts with
          | error e => rfl
          | ok x =>
            have hlen := length_of_takeSpec hs
            rw [List.length_cons] at hl
            obtain ⟨us, rfl, hus⟩ := (takesPlain_takeSpec t.line).takes hs
            show (takeSpecs last line (x.2 ++ ys)).map _ =
              mapRest _ ((takeSpecs last' line x.2).map _)
            rw [ih x.2.length (by omega) ((hcl.tail hc).of_plain hus) rfl]
            cases takeSpecs last' line x.2 <;> rfl
        · rw [if_neg hi, if_neg hi]; rfl

end ScriptPlugins.Language
