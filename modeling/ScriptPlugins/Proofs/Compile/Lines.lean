import ScriptPlugins.Proofs.Language.Split
import ScriptPlugins.Script.Basic

/-!
# Lines — where the steps of a source stand

Every step stands on the line of a token, so its line is no greater than the number of lines that
the source has.
-/

namespace ScriptPlugins

open ScriptPlugins.Language

/-! ## 1. Lines of tokens -/

theorem Language.Piece.line_of_mem_tokens {at_ : Place} {ps : List Piece} {t : Token}
    (h : t ∈ Piece.tokens at_ ps) : t.line ≤ at_.line + lineFeeds (Piece.spell ps) := by
  induction ps generalizing at_ with
  | nil => cases h
  | cons p ps ih =>
    rw [Piece.spell_cons, lineFeeds_append]
    have hrest (h : t ∈ Piece.tokens (at_.after p.text) ps) :
        t.line ≤ at_.line + (lineFeeds p.text + lineFeeds (Piece.spell ps)) := by
      have := ih h
      simp only [Place.after] at this
      omega
    rw [Piece.tokens] at h
    cases hk : p.kind with
    | none => rw [hk] at h; exact hrest h
    | some kind =>
      rw [hk] at h
      rcases List.mem_cons.mp h with rfl | h
      · exact Nat.le_add_right _ _
      · exact hrest h

theorem Language.line_of_mem_tokenize {source : String} {ts : List Token} {t : Token}
    (hts : tokenize source = .ok ts) (h : t ∈ ts) : t.line ≤ 1 + lineFeeds source.toList := by
  obtain ⟨ps, hps, rfl⟩ := map_eq_ok hts
  rw [← (pieces_eq_ok_iff.mp hps).1]
  exact Piece.line_of_mem_tokens h

/-! ## 2. Lines of statements -/

namespace Language

theorem suffix_of_takeKind {last : Nat} {kind : TokenKind} {what : String} {ts : List Token}
    {r : Unit × List Token} (h : takeKind last kind what ts = .ok r) : r.2 <:+ ts := by
  cases ts with
  | nil => cases h
  | cons t ts =>
    rw [takeKind] at h
    split at h
    · cases h; exact List.suffix_cons t ts
    · cases h

theorem TakesPlain.suffix {α : Type} {r : Nat → List Token → Except ParseError (α × List Token)}
    (hr : TakesPlain r) {last : Nat} {ts : List Token} {x : α × List Token}
    (h : r last ts = .ok x) : x.2 <:+ ts := by
  obtain ⟨us, rfl, -⟩ := hr.takes h
  exact List.suffix_append us x.2

theorem suffix_of_takeSpecs {last line : Nat} {ts : List Token} {r : List PluginSpec × List Token}
    (h : takeSpecs last line ts = .ok r) : r.2 <:+ ts := by
  obtain ⟨us, close, rfl, -⟩ := takeSpecs_eq_ok h
  exact ⟨us ++ [close], by simp⟩

theorem suffix_of_takeForm {last : Nat} {t : Token} {ts : List Token} {r : Form × List Token}
    (h : takeForm last t ts = .ok r) : r.2 <:+ ts := by
  obtain ⟨form, rest⟩ := r
  show rest <:+ ts
  cases formRead_of_takeForm h with
  | @plugins us _ _ _ brace read =>
    have hus : us <:+ ts.dropWhile Token.isLineFeed := suffix_of_takeKind brace
    have hrest : rest <:+ us := suffix_of_takeSpecs read
    exact hrest.trans (hus.trans (List.dropWhile_suffix Token.isLineFeed))
  | println _ read => exact (takesPlain_takeText _).suffix read
  | @applyPlugin us vs _ _ _ plugin colon read =>
    have hus : us <:+ ts := suffix_of_takeKind plugin
    have hvs : vs <:+ us := suffix_of_takeKind colon
    have hrest : rest <:+ vs := (takesPlain_takeText _).suffix read
    exact hrest.trans (hvs.trans hus)
  | @setProperty us _ name _ _ _ _ equals read =>
    have hus : us <:+ ts := suffix_of_takeKind equals
    have hrest : rest <:+ us := (takesPlain_takeText name).suffix read
    exact hrest.trans hus

theorem suffix_of_takeStatement {last : Nat} {t : Token} {ts : List Token}
    {r : Statement × List Token} (h : takeStatement last t ts = .ok r) : r.2 <:+ ts := by
  obtain ⟨⟨form, us⟩, hform, h⟩ := bind_eq_ok h
  obtain ⟨⟨_, vs⟩, hend, h⟩ := bind_eq_ok h
  cases h
  have htail : vs <:+ us := @TakesPlain.suffix _ _ (takesPlain_takeEnd false) last _ _ hend
  exact htail.trans (suffix_of_takeForm hform)

/-- The requests that a statement makes. -/
def Form.specs : Form → List PluginSpec
  | .plugins specs => specs
  | _ => []

theorem line_of_takeSpec {last line : Nat} {ts : List Token} {r : PluginSpec × List Token}
    (h : takeSpec last line ts = .ok r) : r.1.line = line := by
  obtain ⟨_, -, h⟩ := bind_eq_ok h
  obtain ⟨_, -, h⟩ := bind_eq_ok h
  obtain ⟨_, -, h⟩ := bind_eq_ok h
  obtain ⟨_, -, h⟩ := bind_eq_ok h
  cases h
  rfl

variable {n : Nat}

theorem line_of_takeSpecs {last line : Nat} {ts rest : List Token} {specs : List PluginSpec}
    (hts : ∀ t ∈ ts, t.line ≤ n) (h : takeSpecs last line ts = .ok (specs, rest)) :
    ∀ s ∈ specs, s.line ≤ n := by
  replace h : SpecsRead last ts specs rest := takeSpecs_eq_ok_iff.mp h
  induction h with
  | closing => exact fun s hs => absurd hs List.not_mem_nil
  | @request ts us vs _ t spec specs next _ read _ ih =>
    have hsuffix : t :: us <:+ ts := next ▸ List.dropWhile_suffix Token.isTerminator
    have hvs : vs <:+ us := (takesPlain_takeSpec t.line).suffix read
    refine List.forall_mem_cons.mpr ⟨?_, ih fun v hv => ?_⟩
    · rw [line_of_takeSpec read]
      exact hts t (hsuffix.subset List.mem_cons_self)
    · exact hts v (hsuffix.subset (List.mem_cons_of_mem t (hvs.subset hv)))

theorem line_of_takeForm {last : Nat} {t : Token} {ts : List Token} {r : Form × List Token}
    (hts : ∀ t ∈ ts, t.line ≤ n) (h : takeForm last t ts = .ok r) :
    ∀ s ∈ r.1.specs, s.line ≤ n := by
  obtain ⟨form, rest⟩ := r
  cases formRead_of_takeForm h with
  | plugins _ brace read =>
    have hsuffix := (suffix_of_takeKind brace).trans (List.dropWhile_suffix Token.isLineFeed)
    exact line_of_takeSpecs (fun t ht => hts t (hsuffix.subset ht)) read
  | _ => exact fun s hs => absurd hs List.not_mem_nil

theorem line_of_takeStatements {last : Nat} {ts : List Token} {ss : List Statement}
    (hts : ∀ t ∈ ts, t.line ≤ n) (h : takeStatements last ts = .ok ss) :
    ∀ s ∈ ss, s.line ≤ n ∧ ∀ spec ∈ s.form.specs, spec.line ≤ n := by
  replace h : StatementsRead last ts ss := takeStatements_eq_ok_iff.mp h
  induction h with
  | nil => exact fun s hs => absurd hs List.not_mem_nil
  | @cons ts us vs t s ss next read _ ih =>
    have hsuffix : t :: us <:+ ts := next ▸ List.dropWhile_suffix Token.isTerminator
    have hvs : vs <:+ us := suffix_of_takeStatement read
    have hus : ∀ u ∈ us, u.line ≤ n := fun u hu =>
      hts u (hsuffix.subset (List.mem_cons_of_mem t hu))
    obtain ⟨⟨form, ws⟩, hform, hread⟩ := bind_eq_ok read
    obtain ⟨⟨_, xs⟩, -, hread⟩ := bind_eq_ok hread
    cases hread
    exact List.forall_mem_cons.mpr
      ⟨⟨hts t (hsuffix.subset List.mem_cons_self), line_of_takeForm hus hform⟩,
        ih fun v hv => hus v (hvs.subset hv)⟩

end Language

/-! ## 3. Lines of steps -/

theorem line_of_lowerSpecs {n : Nat} {known : Requested} {specs : List PluginSpec}
    {r : List Step × Requested} (hs : ∀ s ∈ specs, s.line ≤ n)
    (h : lowerSpecs known specs = .ok r) : ∀ s ∈ r.1, s.line ≤ n := by
  induction specs generalizing known r with
  | nil => cases h; simp
  | cons spec specs ih =>
    rw [lowerSpecs] at h
    split at h
    · cases h
    · obtain ⟨r', hr, h⟩ := bind_eq_ok h
      cases h
      intro s hmem
      rcases List.mem_cons.mp hmem with rfl | hmem
      · exact hs spec List.mem_cons_self
      · exact ih (fun t ht => hs t (List.mem_cons_of_mem spec ht)) hr s hmem

theorem line_of_lowerStatement {n : Nat} {phase : Phase} {known : Requested} {s : Statement}
    {r : List Step × Requested} (hs : s.line ≤ n ∧ ∀ spec ∈ s.form.specs, spec.line ≤ n)
    (h : lowerStatement phase known s = .ok r) : ∀ t ∈ r.1, t.line ≤ n := by
  obtain ⟨line, form⟩ := s
  cases form with
  | plugins specs => exact line_of_lowerSpecs hs.2 h
  | _ =>
    cases phase with
    | preamble => cases h
    | body =>
      cases h
      intro t ht
      rw [List.mem_singleton.mp ht]
      exact hs.1

theorem line_of_lower {n : Nat} {phase : Phase} {known : Requested} {ss : List Statement}
    {steps : List Step}
    (hs : ∀ s ∈ ss, s.line ≤ n ∧ ∀ spec ∈ s.form.specs, spec.line ≤ n)
    (h : lower phase known ss = .ok steps) : ∀ t ∈ steps, t.line ≤ n := by
  induction ss generalizing known steps with
  | nil => cases h; simp
  | cons s ss ih =>
    obtain ⟨r, hr, h⟩ := bind_eq_ok h
    obtain ⟨steps', hsteps, h⟩ := bind_eq_ok h
    cases h
    intro t ht
    rcases List.mem_append.mp ht with ht | ht
    · exact line_of_lowerStatement (hs s List.mem_cons_self) hr t ht
    · exact ih (fun u hu => hs u (List.mem_cons_of_mem s hu)) hsteps t ht

theorem stepsOf_eq_ok {phase : Phase} {hook : Hook} {source : String} {steps : List Step}
    (h : stepsOf phase hook source = .ok steps) :
    ∃ ss, statementsOf source = .ok ss ∧ lower phase [] ss = .ok steps ∧
      ∀ s ∈ steps, hook.accepts s := by
  obtain ⟨ss, hss, h⟩ := bind_eq_ok h
  obtain ⟨steps', hsteps, h⟩ := bind_eq_ok h
  split at h
  next => cases h
  next hnone =>
    cases h
    refine ⟨ss, hss, hsteps, fun s hs => ?_⟩
    simpa using List.find?_eq_none.mp hnone s hs

/-- The steps of a source stand on its lines. -/
theorem line_of_stepsOf {phase : Phase} {hook : Hook} {source : String} {steps : List Step}
    (h : stepsOf phase hook source = .ok steps) :
    ∀ s ∈ steps, s.line ≤ 1 + lineFeeds source.toList := by
  obtain ⟨ss, hss, hsteps, -⟩ := stepsOf_eq_ok h
  obtain ⟨ts, hts, hparse⟩ := bind_eq_ok hss
  have hts := mapError_eq_ok hts
  have hparse := mapError_eq_ok hparse
  exact line_of_lower (line_of_takeStatements (fun t ht => line_of_mem_tokenize hts ht) hparse)
    hsteps

/-! ## 4. Lines of halves -/

/-- Neither half of a script has more lines than the script. -/
theorem Language.lineFeeds_split (source : String) :
    lineFeeds (split source).preamble.toList ≤ lineFeeds source.toList ∧
      lineFeeds (split source).body.toList ≤ lineFeeds source.toList := by
  rw [split]
  split
  next => exact ⟨Nat.zero_le _, Nat.le_refl _⟩
  next ps hps =>
    split
    next => exact ⟨Nat.zero_le _, Nat.le_refl _⟩
    next before block behind hblock =>
      obtain ⟨hparts, -⟩ := isBlock_of_leadingBlock hblock
      have hfeeds : lineFeeds (List.replicate (lineFeeds (Piece.spell before)) '\n') =
          lineFeeds (Piece.spell before) := List.count_replicate_self ..
      rw [← (pieces_eq_ok_iff.mp hps).1, hparts]
      simp only [String.toList_ofList, lineFeeds_append, Piece.spell_append, lineFeeds_blankOut,
        hfeeds]
      omega

theorem Script.lineFeeds_sourceOf (s : Script) (phase : Phase) :
    lineFeeds (s.sourceOf phase).toList ≤ lineFeeds s.source.toList := by
  cases phase with
  | preamble => exact (lineFeeds_split s.source).1
  | body => exact (lineFeeds_split s.source).2

end ScriptPlugins
