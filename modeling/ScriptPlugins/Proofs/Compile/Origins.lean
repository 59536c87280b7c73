import ScriptPlugins.Proofs.Compile.Lines
import ScriptPlugins.Proofs.Run.Effects

/-!
# Origins — the statements that steps come from

A script is compiled in halves, but each statement of its body stands in the script itself: it is
read there, and on the same line.  So a step that applies a plugin names the line on which the
script says so.
-/

namespace ScriptPlugins

open ScriptPlugins.Language

/-! ## 1. Statements of a text -/

namespace Language

variable {source : String} {s : Statement} {ss : List Statement} {last : Nat} {ts : List Token}

/-- A statement that is read somewhere among some tokens. -/
def Statement.ReadIn (s : Statement) (last : Nat) (ts : List Token) : Prop :=
  ∃ before first rest behind, ts = before ++ first :: rest ∧
    takeStatement last first rest = .ok (s, behind)

/-- A statement that stands in a source: it is read where one of the tokens of the source stands. -/
def Statement.StandsIn (s : Statement) (source : String) : Prop :=
  ∃ ts, tokenize source = .ok ts ∧ s.ReadIn (lastLine ts) ts

theorem Statement.ReadIn.of_suffix {us : List Token} (h : s.ReadIn last us) (hs : us <:+ ts) :
    s.ReadIn last ts := by
  obtain ⟨before, first, rest, behind, rfl, hread⟩ := h
  obtain ⟨front, rfl⟩ := hs
  exact ⟨front ++ before, first, rest, behind, (List.append_assoc ..).symm, hread⟩

/-- Each statement of a list is read where it stands. -/
theorem readIn_of_takeStatements (h : takeStatements last ts = .ok ss) (hs : s ∈ ss) :
    s.ReadIn last ts := by
  replace h : StatementsRead last ts ss := takeStatements_eq_ok_iff.mp h
  induction h with
  | nil => cases hs
  | @cons ts us vs t first ss next read _ ih =>
    have hsuffix : t :: us <:+ ts := next ▸ List.dropWhile_suffix Token.isTerminator
    refine Statement.ReadIn.of_suffix ?_ hsuffix
    rcases List.mem_cons.mp hs with rfl | hs
    · exact ⟨[], t, us, vs, rfl, read⟩
    · exact (ih hs).of_suffix ((suffix_of_takeStatement read).trans (List.suffix_cons t us))

/-- **The statements of a body stand in the script.** -/
theorem standsIn_of_body (h : statementsOf (split source).body = .ok ss) (hs : s ∈ ss) :
    s.StandsIn source := by
  by_cases hb : ∃ ts before block behind, tokenize source = .ok ts ∧
      LeadingBlock ts before block behind
  · obtain ⟨ts, before, block, behind, hts, hblock⟩ := hb
    obtain ⟨lead, text, rest, preamble, body, -, -, -, hbody, hplaced⟩ := tokenize_split hts hblock
    obtain ⟨us, hus, hparse⟩ := statementsOf_eq_ok h
    obtain rfl : body = us := Except.ok.inj (hbody.symm.trans hus)
    rw [parse_body hblock hplaced] at hparse
    refine ⟨ts, hts, (readIn_of_takeStatements hparse hs).of_suffix ?_⟩
    rw [hblock.parts]
    exact List.suffix_append _ behind
  · have hwhole := split_of_no_leadingBlock fun ts before block behind hts hblock =>
      hb ⟨ts, before, block, behind, hts, hblock⟩
    rw [hwhole] at h
    obtain ⟨ts, hts, hparse⟩ := statementsOf_eq_ok h
    exact ⟨ts, hts, readIn_of_takeStatements hparse hs⟩

end Language

/-! ## 2. Steps that apply plugins -/

section Lowering

variable {phase : Phase} {known known' : Requested} {steps : List Step} {s : Statement}
  {ss : List Statement} {line : Nat} {id : String}

theorem eq_of_lowerStatement (h : lowerStatement phase known s = .ok (steps, known'))
    (hstep : ⟨line, .applyPlugin id⟩ ∈ steps) : s = ⟨line, .applyPlugin id⟩ := by
  obtain ⟨at_, form⟩ := s
  cases form with
  | plugins specs =>
    -- A block becomes requests and nothing else.
    rw [(lowerSpecs_eq_ok h).1] at hstep
    obtain ⟨spec, -, he⟩ := List.mem_map.mp hstep
    cases (Step.mk.inj he).2
  | println text => cases phase <;> cases h; simp at hstep
  | setProperty key value => cases phase <;> cases h; simp at hstep
  | applyPlugin other =>
    cases phase with
    | preamble => cases h
    | body =>
      cases h
      obtain ⟨rfl, hid⟩ := Step.mk.inj (List.mem_singleton.mp hstep)
      rw [Action.applyPlugin.inj hid]

/-- A step that applies a plugin comes from a statement that says so, on the same line. -/
theorem mem_of_lower (h : lower phase known ss = .ok steps)
    (hstep : ⟨line, .applyPlugin id⟩ ∈ steps) : ⟨line, .applyPlugin id⟩ ∈ ss := by
  induction ss generalizing known steps with
  | nil => cases h; cases hstep
  | cons s ss ih =>
    obtain ⟨r, hr, h⟩ := bind_eq_ok h
    obtain ⟨steps', hsteps, h⟩ := bind_eq_ok h
    cases h
    rcases List.mem_append.mp hstep with hstep | hstep
    · exact List.mem_cons.mpr (.inl (eq_of_lowerStatement hr hstep).symm)
    · exact List.mem_cons_of_mem s (ih hsteps hstep)

end Lowering

end ScriptPlugins
