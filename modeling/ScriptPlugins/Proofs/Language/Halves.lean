import ScriptPlugins.Proofs.Language.Split

/-!
# Halves — what the halves of a script say about the script

A block of requests is a statement and has to end like one, but the splitter cuts behind its brace
whatever follows.  So two halves that can be read make a script that can be read unless its block
goes on, and a script whose block goes on is refused although its halves are not.
-/

namespace ScriptPlugins.Language

variable {source : String} {ts : List Token} {first others : List Statement} {e : CompileError}

/-- A script is read as its halves are, up to the end of its block. -/
theorem statementsOf_of_leadingBlock {before block behind : List Token}
    (hts : tokenize source = .ok ts) (hblock : LeadingBlock ts before block behind)
    (hfirst : statementsOf (split source).preamble = .ok first)
    (hothers : statementsOf (split source).body = .ok others) :
    statementsOf source = (takeEnd false behind >>= fun _ => .ok (first ++ others)).mapError
      fun e => .syntaxFault e.line (.statements e.fault) := by
  obtain ⟨lead, text, rest, preamble, body, -, hp, hpt, hb, hbt⟩ := tokenize_split hts hblock
  rw [statementsOf_eq hp] at hfirst
  rw [statementsOf_eq hb] at hothers
  rw [statementsOf_eq hts, parse_of_leadingBlock hblock hpt hbt, mapError_eq_ok hfirst,
    mapError_eq_ok hothers]
  rfl

/-- A script whose block goes on is refused where it does, even if its halves are not. -/
theorem statementsOf_of_goesOn (hfirst : statementsOf (split source).preamble = .ok first)
    (hothers : statementsOf (split source).body = .ok others) (h : GoesOnBehindBlock source e) :
    statementsOf source = .error e := by
  obtain ⟨ts, before, block, t, behind, hts, hblock, ht, rfl⟩ := h
  have hend : takeEnd false (t :: behind) = .error ⟨t.line, .notAtEnd t.kind⟩ := by
    rw [takeEnd, if_neg ht, if_neg (by simp)]
  rw [statementsOf_of_leadingBlock hts hblock hfirst hothers, hend]
  rfl

/-- A script whose block does not go on is what its halves are. -/
theorem statementsOf_of_not_goesOn (hts : tokenize source = .ok ts)
    (hfirst : statementsOf (split source).preamble = .ok first)
    (hothers : statementsOf (split source).body = .ok others)
    (h : ∀ e, ¬GoesOnBehindBlock source e) : statementsOf source = .ok (first ++ others) := by
  by_cases hb : ∃ before block behind, LeadingBlock ts before block behind
  · obtain ⟨before, block, behind, hblock⟩ := hb
    rw [statementsOf_of_leadingBlock hts hblock hfirst hothers]
    rcases takeEnd_false behind with ⟨x, hx⟩ | ⟨t, us, rfl, ht, -⟩
    · rw [hx]
      rfl
    · exact absurd ⟨ts, before, block, t, us, hts, hblock, ht, rfl⟩ (h _)
  · have hsplit : split source = ⟨"", source⟩ :=
      split_of_no_leadingBlock fun ts' before block behind hts' hblock => by
        obtain rfl : ts' = ts := Except.ok.inj (hts'.symm.trans hts)
        exact hb ⟨before, block, behind, hblock⟩
    rw [hsplit] at hfirst hothers
    obtain rfl : first = [] := Except.ok.inj (hfirst.symm.trans statementsOf_empty)
    exact hothers

/-- **When two halves make a script.**  If both halves of a script can be read, the script says what
they say one after the other exactly if its block does not go on; otherwise it is refused at the
token that stands behind the block. -/
theorem statementsOf_of_halves (hts : tokenize source = .ok ts)
    (hfirst : statementsOf (split source).preamble = .ok first)
    (hothers : statementsOf (split source).body = .ok others) :
    (statementsOf source = .ok (first ++ others) ↔ ∀ e, ¬GoesOnBehindBlock source e) ∧
    ∀ e, statementsOf source = .error e ↔ GoesOnBehindBlock source e := by
  have hgoes (e : CompileError) (h : GoesOnBehindBlock source e) : statementsOf source = .error e :=
    statementsOf_of_goesOn hfirst hothers h
  refine ⟨⟨fun hok e h => ?_, statementsOf_of_not_goesOn hts hfirst hothers⟩,
    fun e => ⟨?_, hgoes e⟩⟩
  · rw [hgoes e h] at hok
    cases hok
  · -- A refusal of the script is one of a half, and there is none, or the block goes on.
    intro herror
    rcases statementsOf_split_error herror with hp | ⟨_, -, hb | h⟩
    · rw [hfirst] at hp
      cases hp
    · rw [hothers] at hb
      cases hb
    · exact h

/-- A statement on the line of a block: both halves can be read, and the script cannot. -/
theorem statementsOf_of_halves_one_line :
    let source := "plugins \x7b id 'a' \x7d println 'x'"
    statementsOf (split source).preamble = .ok [⟨1, .plugins [⟨"a", none, true, 1⟩]⟩] ∧
    statementsOf (split source).body = .ok [⟨1, .println "x"⟩] ∧
    ∃ e, GoesOnBehindBlock source e ∧ statementsOf source = .error e ∧
      e = .syntaxFault 1 (.statements (.notAtEnd (.word "println"))) := by
  have hts : ∃ ts, tokenize "plugins \x7b id 'a' \x7d println 'x'" = .ok ts :=
    exists_ok (by decide +kernel)
  obtain ⟨ts, hts⟩ := hts
  have hfirst : statementsOf (split "plugins \x7b id 'a' \x7d println 'x'").preamble =
      .ok [⟨1, .plugins [⟨"a", none, true, 1⟩]⟩] := by decide +kernel
  have hothers : statementsOf (split "plugins \x7b id 'a' \x7d println 'x'").body =
      .ok [⟨1, .println "x"⟩] := by decide +kernel
  have herror : statementsOf "plugins \x7b id 'a' \x7d println 'x'" =
      .error (.syntaxFault 1 (.statements (.notAtEnd (.word "println")))) := by decide +kernel
  exact ⟨hfirst, hothers, _, ((statementsOf_of_halves hts hfirst hothers).2 _).mp herror, herror,
    rfl⟩

end ScriptPlugins.Language
