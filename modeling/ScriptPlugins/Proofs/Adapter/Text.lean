import ScriptPlugins.Adapter.Basic
import ScriptPlugins.Proofs.Toml.Lines

/-!
# Adapter text — what is written for an adapter says this adapter

The lines behind the header quote what they hold, so they say the members of the adapter whatever
its texts are.  The header takes the script id as it is, so the whole text says the adapter only if
the id can stand in a comment; otherwise the comment ends inside the id.
-/

namespace ScriptPlugins.Adapter

open Toml (IsBareKey texts textLine)

/-! ## 1. Members -/

theorem isBareKey_members (a : Adapter) : ∀ p ∈ a.members, IsBareKey p.1 := by
  have hall : ∀ key ∈ ["adapter_class", "script_id", "target_kind", "preamble_class", "body_class"],
      IsBareKey key := by decide
  intro p hp
  apply hall
  obtain ⟨name, id, kind, preamble, body⟩ := a
  cases preamble <;> cases body <;> revert p <;> simp [members]

theorem nodup_members (a : Adapter) : (a.members.map Prod.fst).Nodup := by
  obtain ⟨name, id, kind, preamble, body⟩ := a
  cases preamble <;> cases body <;> simp [members]

/-- The members of an adapter say this adapter. -/
theorem ofMembers?_texts (a : Adapter) : ofMembers? (texts a.members) = some a := by
  obtain ⟨name, id, kind, preamble, body⟩ := a
  cases kind <;> cases preamble <;> cases body <;> rfl

/-- The lines behind the header say the members, whatever texts they hold. -/
theorem readLines_members (a : Adapter) {fuel : Nat} (hfuel : a.members.length ≤ fuel) :
    Toml.readLines fuel ⟨[], []⟩ (String.join (a.members.map textLine)).toList =
      some ⟨texts a.members, []⟩ :=
  @Toml.readLines_textLines [] _ a.isBareKey_members a.nodup_members _ hfuel

/-! ## 2. The header -/

theorem print_eq (a : Adapter) :
    a.print = "# Precompiled " ++ a.scriptId ++ " script plugin.\n" ++
      String.join (a.members.map textLine) := rfl

/-- The text of an adapter from the end of its comment on is read as if nothing stood before it,
wherever in the header the comment ends. -/
theorem read_print_of_comment {a : Adapter} {comment rest : List Char}
    (h : a.print.toList = '#' :: (comment ++ '\n' :: rest))
    (hcomment : ∀ c ∈ comment, Toml.isPrintable c = true) :
    Toml.read a.print =
      (Toml.readLines a.print.toList.length ⟨[], []⟩ rest).map Toml.Draft.members := by
  unfold Toml.read
  rw [h]
  show (Toml.readLines (_ + 1) ⟨[], []⟩ ('#' :: (comment ++ '\n' :: rest))).map _ = _
  rw [Toml.readLines, Toml.readLine_comment hcomment]
  · rfl
  · exact List.cons_ne_nil _ _

/-- An id that can stand in a comment leaves the members to be read. -/
theorem read_print_members {a : Adapter}
    (h : ∀ c ∈ a.scriptId.toList, Toml.isPrintable c = true) :
    Toml.read a.print = some (texts a.members) := by
  have hsplit : a.print.toList = '#' :: ((" Precompiled ".toList ++ a.scriptId.toList ++
      " script plugin.".toList) ++ '\n' :: (String.join (a.members.map textLine)).toList) := by
    rw [print_eq]
    simp
  have hcomment : ∀ c ∈ " Precompiled ".toList ++ a.scriptId.toList ++ " script plugin.".toList,
      Toml.isPrintable c = true := by
    have hwords : ∀ c ∈ " Precompiled ".toList ++ " script plugin.".toList,
        Toml.isPrintable c = true := List.all_eq_true.mp (by decide)
    intro c hc
    rcases List.mem_append.mp hc with hc | hc
    · rcases List.mem_append.mp hc with hc | hc
      · exact hwords c (List.mem_append_left _ hc)
      · exact h c hc
    · exact hwords c (List.mem_append_right _ hc)
  have hlines : a.members.length ≤ a.print.toList.length := by
    have hmembers : a.members.length ≤ 5 := by
      obtain ⟨name, id, kind, preamble, body⟩ := a
      cases preamble <;> cases body <;> simp [members]
    rw [hsplit]
    simp
    omega
  rw [read_print_of_comment hsplit hcomment, readLines_members a hlines]
  rfl

/-- An id with a line break ends the comment there: the rest of the id is read as text of its
own. -/
theorem read_print_of_break {a : Adapter} {before behind : String}
    (hid : a.scriptId = before ++ "\n" ++ behind)
    (h : ∀ c ∈ before.toList, Toml.isPrintable c = true) :
    Toml.read a.print = (Toml.readLines a.print.toList.length ⟨[], []⟩
      (behind ++ " script plugin.\n" ++ String.join (a.members.map textLine)).toList).map
        Toml.Draft.members := by
  apply @read_print_of_comment a (" Precompiled ".toList ++ before.toList)
  · rw [print_eq, hid]
    simp
  · have hwords : ∀ c ∈ " Precompiled ".toList, Toml.isPrintable c = true :=
      List.all_eq_true.mp (by decide)
    intro c hc
    exact (List.mem_append.mp hc).elim (hwords c) (h c)

/-! ## 3. Round trip -/

/-- The text of an adapter says its members and no others, and the adapter itself, if its script id
can stand in a comment.  No other text of the adapter matters. -/
theorem print_reads_back (a : Adapter)
    (h : ∀ c ∈ a.scriptId.toList, Toml.isPrintable c = true) :
    Toml.read a.print = some (a.members.map fun p => (p.1, Toml.text p.2)) ∧
      read a.print = some a := by
  have hread := read_print_members h
  refine ⟨hread, ?_⟩
  unfold read
  rw [hread]
  exact ofMembers?_texts a

/-- Quotes, line breaks and text that looks like a key, in every place where they may stand. -/
theorem print_reads_back_quoted :
    (∀ c ∈ "a'b\"c # body_class = \"d\"".toList, Toml.isPrintable c = true) ∧
      read (Adapter.mk "A\n# '''\"\"\"" "a'b\"c # body_class = \"d\"" .settings
        (some "\r\n\\\x00") none).print =
        some (Adapter.mk "A\n# '''\"\"\"" "a'b\"c # body_class = \"d\"" .settings
          (some "\r\n\\\x00") none) :=
  ⟨List.all_eq_true.mp (by decide), (print_reads_back _ (List.all_eq_true.mp (by decide))).2⟩

end ScriptPlugins.Adapter
