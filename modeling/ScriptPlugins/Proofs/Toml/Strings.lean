import ScriptPlugins.Proofs.Text.Numerals
import ScriptPlugins.Proofs.Text.Runs
import ScriptPlugins.Toml.Quoted
import ScriptPlugins.Toml.Scalar

/-!
# TOML strings — a text is read back from its value

The two basic forms escape whatever they cannot hold, so they read back for every text.  The literal
forms hold a text as it is, so they read back only for the texts they are chosen for.  In a long
form the quotes at the end of the text and the three that close it are one run, which is why no more
than two quotes may stand in a row.
-/

namespace ScriptPlugins.Toml

/-! ## 1. Runs of a character -/

theorem longestRun_go_bounds (c : Char) (cs : List Char) (longest current : Nat) :
    longest ≤ longestRun.go c longest current cs ∧
      current + (cs.takeWhile (· = c)).length ≤ longestRun.go c longest current cs := by
  induction cs generalizing longest current with
  | nil =>
    rw [longestRun.go, List.takeWhile_nil, List.length_nil]
    omega
  | cons d ds ih =>
    rw [longestRun.go]
    split
    next hd =>
      have := ih longest (current + 1)
      rw [List.takeWhile_cons_of_pos (by simpa using hd), List.length_cons]
      omega
    next hd =>
      have := ih (max longest current) 0
      rw [List.takeWhile_cons_of_neg (by simpa using hd), List.length_nil]
      omega

theorem run_le_longestRun_go {c : Char} {cs ds : List Char} (h : ds <:+ cs)
    (longest current : Nat) :
    (ds.takeWhile (· = c)).length ≤ longestRun.go c longest current cs := by
  induction cs generalizing longest current with
  | nil =>
    rw [List.suffix_nil.mp h, List.takeWhile_nil, List.length_nil]
    exact Nat.zero_le _
  | cons d cs ih =>
    rcases List.suffix_cons_iff.mp h with rfl | h
    · have := (longestRun_go_bounds c (d :: cs) longest current).2
      omega
    · rw [longestRun.go]
      split
      · exact ih h _ _
      · exact ih h _ _

/-- No run of a character is longer than its longest one, wherever in the text it begins. -/
theorem run_le_longestRun {c : Char} {cs ds : List Char} (h : ds <:+ cs) :
    (ds.takeWhile (· = c)).length ≤ longestRun c cs := run_le_longestRun_go h 0 0

theorem not_mem_of_longestRun_eq_zero {c : Char} {cs : List Char} (h : longestRun c cs = 0) :
    c ∉ cs := by
  intro hc
  obtain ⟨as, bs, rfl⟩ := List.append_of_mem hc
  have hrun := run_le_longestRun (c := c) (List.suffix_append as (c :: bs))
  rw [h, List.takeWhile_cons_of_pos (by simp), List.length_cons] at hrun
  omega

/-! ## 2. Single characters -/

theorem isPrintable_of_not_isControl {c : Char} (h : isControl c = false) :
    isPrintable c = true ∨ c = '\n' := by
  rw [isPrintable]
  by_cases ht : c = '\t'
  · exact .inl (by simp [ht])
  by_cases hn : c = '\n'
  · exact .inr hn
  simp only [isControl, ht, hn, decide_eq_false_iff_not, ne_eq, not_false_eq_true, and_true] at h
  simp only [ht, decide_false, Bool.false_or, Bool.and_eq_true, decide_eq_true_eq]
  omega

/-- A character without an escape stands for itself where it is read. -/
theorem escape?_eq_none {long : Bool} {c : Char} (h : escape? long c = none) :
    c ≠ '\\' ∧ c ≠ '\r' ∧ (isPrintable c = true ∨ long = true ∧ c = '\n') := by
  rw [escape?] at h
  split at h; · cases h
  split at h; · cases h
  split at h
  next hn =>
    subst hn
    refine ⟨by decide, by decide, .inr ⟨?_, rfl⟩⟩
    split at h
    next hl => exact hl
    next => cases h
  next hn =>
    split at h; · cases h
    split at h; · cases h
    next hr =>
      split at h; · cases h
      next hb =>
        split at h; · cases h
        next hc =>
          refine ⟨hb, hr, .inl ?_⟩
          exact (isPrintable_of_not_isControl (by simpa using hc)).resolve_right hn

theorem readEscape_code {n : Nat} (hn : n < 0x80) (rest : List Char) :
    readEscape ('u' :: ((Text.hexPadded 4 n).map Char.toUpper ++ rest)) =
      some (Char.ofNat n, rest) := by
  have hdigits : ∀ m < 0x80, ∃ a b c d, (Text.hexPadded 4 m).map Char.toUpper = [a, b, c, d] ∧
      Text.numeral? 16 [a, b, c, d] >>= codePoint? = some (Char.ofNat m) := by
    intro m hm
    have hall : ∀ m < 0x80, ((Text.hexPadded 4 m).map Char.toUpper).length = 4 ∧
        Text.numeral? 16 ((Text.hexPadded 4 m).map Char.toUpper) >>= codePoint? =
          some (Char.ofNat m) := by decide +kernel
    obtain ⟨hlength, hvalue⟩ := hall m hm
    match h : (Text.hexPadded 4 m).map Char.toUpper with
    | [a, b, c, d] => exact ⟨a, b, c, d, rfl, h ▸ hvalue⟩
    | [] | [_] | [_, _] | [_, _, _] | _ :: _ :: _ :: _ :: _ :: _ => simp [h] at hlength
  obtain ⟨a, b, c, d, hcode, hvalue⟩ := hdigits n hn
  rw [hcode]
  show (Text.numeral? 16 [a, b, c, d] >>= codePoint?) >>= _ = _
  rw [hvalue]
  rfl

/-- An escape is a backslash, which joins no lines, and what reads back as the character. -/
structure IsEscape (c : Char) (e : List Char) : Prop where
  begins : ∃ x t, e = '\\' :: x :: t ∧ isSpace x = false ∧ x ≠ '\n' ∧ x ≠ '\r'
  reads : ∀ rest, readEscape (e.tail ++ rest) = some (c, rest)

theorem isEscape_short {c x : Char} (hx : unescape x = some c) (hspace : isSpace x = false)
    (hn : x ≠ '\n') (hr : x ≠ '\r') : IsEscape c ['\\', x] where
  begins := ⟨x, [], rfl, hspace, hn, hr⟩
  reads rest := by
    show readEscape (x :: rest) = some (c, rest)
    rw [readEscape]
    · rw [hx]
      rfl
    all_goals
      intros
      subst x
      cases hx

theorem isEscape_of_escape? {long : Bool} {c : Char} {e : List Char}
    (h : escape? long c = some e) : IsEscape c e := by
  rw [escape?] at h
  split at h
  next hc => cases h; subst hc; exact isEscape_short rfl rfl (by decide) (by decide)
  split at h
  next hc => cases h; subst hc; exact isEscape_short rfl rfl (by decide) (by decide)
  split at h
  next hc =>
    split at h
    · cases h
    · cases h; subst hc; exact isEscape_short rfl rfl (by decide) (by decide)
  split at h
  next hc => cases h; subst hc; exact isEscape_short rfl rfl (by decide) (by decide)
  split at h
  next hc => cases h; subst hc; exact isEscape_short rfl rfl (by decide) (by decide)
  split at h
  next hc => cases h; subst hc; exact isEscape_short rfl rfl (by decide) (by decide)
  split at h
  next hc =>
    cases h
    have hn : c.toNat < 0x80 := by
      simp only [isControl, decide_eq_true_eq] at hc
      omega
    refine ⟨⟨'u', _, rfl, by decide, by decide, by decide⟩, fun rest => ?_⟩
    have hread := readEscape_code hn rest
    rwa [Char.ofNat_toNat] at hread
  · cases h

theorem isEscape_quote : IsEscape '"' ['\\', '"'] :=
  isEscape_short rfl rfl (by decide) (by decide)

/-! ## 3. Escaped text -/

/-- How a character stands in escaped text: `run` quotes without an escape end just before it, and
`run'` end with it. -/
inductive EscapedAs (long : Bool) (most run : Nat) (c : Char) : Nat → List Char → Prop
  | escape {e : List Char} (h : IsEscape c e) : EscapedAs long most run c 0 e
  | itself {run' : Nat} (hb : c ≠ '\\') (hr : c ≠ '\r')
      (hp : isPrintable c = true ∨ long = true ∧ c = '\n')
      (hquote : c = '"' → run < most ∧ run' = run + 1) : EscapedAs long most run c run' [c]

theorem EscapedAs.ne_nil {long : Bool} {most run run' : Nat} {c : Char} {e : List Char}
    (h : EscapedAs long most run c run' e) : e ≠ [] := by
  cases h with
  | escape h =>
    obtain ⟨x, t, rfl, -⟩ := h.begins
    exact List.cons_ne_nil _ _
  | itself => exact List.cons_ne_nil _ _

/-- Escaped text is one character as it stands there, and more escaped text. -/
theorem escapeAll_cons (long : Bool) (most run : Nat) (c : Char) (cs : List Char) :
    ∃ run' e, EscapedAs long most run c run' e ∧
      escapeAll long most run (c :: cs) = e ++ escapeAll long most run' cs := by
  rw [escapeAll]
  split
  next hc =>
    subst hc
    split
    next hrun =>
      exact ⟨_, _, .itself (by decide) (by decide) (.inl (by decide)) fun _ => ⟨hrun, rfl⟩, rfl⟩
    next => exact ⟨0, _, .escape isEscape_quote, rfl⟩
  next hc =>
    split
    next e he => exact ⟨0, e, .escape (isEscape_of_escape? he), rfl⟩
    next he =>
      obtain ⟨hb, hr, hp⟩ := escape?_eq_none he
      exact ⟨0, [c], .itself hb hr hp fun h => absurd h hc, rfl⟩

theorem length_le_escapeAll (long : Bool) (most run : Nat) (cs : List Char) :
    cs.length ≤ (escapeAll long most run cs).length := by
  induction cs generalizing run with
  | nil => exact Nat.zero_le _
  | cons c cs ih =>
    obtain ⟨run', e, he, heq⟩ := escapeAll_cons long most run c cs
    have hlength := List.length_pos_iff.mpr he.ne_nil
    have := ih run'
    rw [heq, List.length_append, List.length_cons]
    omega

/-- Escaped text begins with no more quotes than may still stand there. -/
theorem run_escapeAll (long : Bool) (most : Nat) {run : Nat} (cs : List Char) :
    ((escapeAll long most run cs).takeWhile (· = '"')).length ≤ most - run := by
  induction cs generalizing run with
  | nil => exact Nat.zero_le _
  | cons c cs ih =>
    obtain ⟨run', e, he, heq⟩ := escapeAll_cons long most run c cs
    rw [heq]
    cases he with
    | escape h =>
      obtain ⟨x, t, rfl, -⟩ := h.begins
      exact Nat.zero_le _
    | itself _ _ _ hquote =>
      rw [List.singleton_append]
      by_cases hc : c = '"'
      · obtain ⟨hrun, rfl⟩ := hquote hc
        have := @ih (run + 1)
        rw [List.takeWhile_cons_of_pos (by simpa using hc), List.length_cons]
        omega
      · rw [List.takeWhile_cons_of_neg (by simpa using hc)]
        exact Nat.zero_le _

/-- Escaped text that is nothing but quotes is the text itself. -/
theorem eq_of_quotes_escapeAll {long : Bool} {most k run : Nat} {cs : List Char}
    (h : escapeAll long most run cs = List.replicate k '"') : cs = List.replicate k '"' := by
  induction cs generalizing run k with
  | nil => exact h
  | cons c cs ih =>
    obtain ⟨run', e, he, heq⟩ := escapeAll_cons long most run c cs
    rw [heq] at h
    cases he with
    | escape he =>
      obtain ⟨x, t, rfl, -⟩ := he.begins
      cases k with
      | zero => cases h
      | succ k => cases (List.cons.inj h).1
    | itself =>
      cases k with
      | zero => cases h
      | succ k =>
        obtain ⟨rfl, htail⟩ := List.cons.inj h
        rw [List.replicate_succ, ih htail]

/-- Neither a line break nor a carriage return is put in front of escaped text. -/
theorem head?_escapeAll {long : Bool} {most run : Nat} {cs : List Char} :
    (escapeAll long most run cs).head? ≠ some '\r' ∧
      ('\n' ∉ cs → (escapeAll long most run cs).head? ≠ some '\n') := by
  cases cs with
  | nil => exact ⟨by simp [escapeAll], fun _ => by simp [escapeAll]⟩
  | cons c cs =>
    obtain ⟨run', e, he, heq⟩ := escapeAll_cons long most run c cs
    rw [heq]
    cases he with
    | escape h =>
      obtain ⟨x, t, rfl, -⟩ := h.begins
      exact ⟨by simp, fun _ => by simp⟩
    | itself _ hr _ _ =>
      refine ⟨by simpa using hr, fun hn => ?_⟩
      simp only [List.singleton_append, List.head?_cons, ne_eq, Option.some.injEq]
      rintro rfl
      exact hn List.mem_cons_self

/-! ## 4. Basic strings -/

theorem readBasic_escape {c : Char} {e : List Char} (h : IsEscape c e) (fuel : Nat)
    (cs : List Char) :
    readBasic (fuel + 1) (e ++ cs) = (readBasic fuel cs).map fun (v, rest) => (c :: v, rest) := by
  obtain ⟨x, t, rfl, -⟩ := h.begins
  have hread := h.reads cs
  rw [List.tail_cons] at hread
  show (readEscape (x :: t ++ cs) >>= fun p => readBasic fuel p.2 >>= fun r => _) = _
  rw [hread]
  show (readBasic fuel cs >>= fun r => some (c :: r.1, r.2)) = _
  cases readBasic fuel cs <;> rfl

theorem readBasic_char {c : Char} (hq : c ≠ '"') (hb : c ≠ '\\') (hp : isPrintable c = true)
    (fuel : Nat) (cs : List Char) :
    readBasic (fuel + 1) (c :: cs) = (readBasic fuel cs).map fun (v, rest) => (c :: v, rest) := by
  rw [readBasic, if_pos hp]
  · exact fun he => absurd he hq
  · exact fun he => absurd he hb

/-- Any text is read back from a basic string. -/
theorem readBasic_escapeAll {fuel run : Nat} {cs : List Char} (hfuel : cs.length < fuel)
    (rest : List Char) :
    readBasic fuel (escapeAll false 0 run cs ++ '"' :: rest) = some (cs, rest) := by
  induction cs generalizing fuel run with
  | nil =>
    obtain ⟨fuel, rfl⟩ : ∃ n, fuel = n + 1 := ⟨fuel - 1, by simp at hfuel; omega⟩
    rfl
  | cons c cs ih =>
    obtain ⟨fuel, rfl⟩ : ∃ n, fuel = n + 1 := ⟨fuel - 1, by simp at hfuel; omega⟩
    have hlength : cs.length < fuel := by simpa using hfuel
    obtain ⟨run', e, he, heq⟩ := escapeAll_cons false 0 run c cs
    rw [heq, List.append_assoc]
    cases he with
    | escape h => rw [readBasic_escape h, ih hlength]; rfl
    | itself hb _ hp hquote =>
      -- No quote stands without an escape here, and no line feed.
      have hq : c ≠ '"' := fun hc => absurd (hquote hc).1 (Nat.not_lt_zero run)
      rw [List.singleton_append, readBasic_char hq hb (hp.resolve_right (by simp)), ih hlength]
      rfl

/-! ## 5. Literal strings -/

theorem readLiteral_append {cs : List Char} (hq : '\'' ∉ cs)
    (hp : ∀ c ∈ cs, isPrintable c = true) (rest : List Char) :
    readLiteral (cs ++ '\'' :: rest) = some (cs, rest) := by
  induction cs with
  | nil => rfl
  | cons c cs ih =>
    have hc : c ≠ '\'' := fun he => hq (he ▸ List.mem_cons_self)
    have ih := ih (fun h => hq (List.mem_cons_of_mem c h))
      (fun d hd => hp d (List.mem_cons_of_mem c hd))
    rw [List.cons_append, readLiteral, if_pos (hp c List.mem_cons_self), ih]
    · rfl
    · exact fun he => absurd he hc

/-! ## 6. The end of long strings -/

variable {q : Char}

/-- A run of quotes in front of another character. -/
theorem run_replicate_append {k : Nat} {rest : List Char} (hrest : rest.head? ≠ some q) :
    (List.replicate k q ++ rest).takeWhile (· = q) = List.replicate k q := by
  rw [List.takeWhile_append_of_pos fun c hc => by simpa using List.eq_of_mem_replicate hc]
  have hnone : rest.takeWhile (· = q) = [] := by
    cases rest with
    | nil => rfl
    | cons c cs => exact List.takeWhile_cons_of_neg (by simpa using hrest)
  rw [hnone, List.append_nil]

/-- Up to two quotes before the three that close a string belong to it. -/
theorem closeLong_close {k : Nat} (hk : k ≤ 2) {rest : List Char} (hrest : rest.head? ≠ some q) :
    closeLong q (List.replicate k q ++ q :: q :: q :: rest) = some (List.replicate k q, rest) := by
  have hsplit : List.replicate k q ++ q :: q :: q :: rest = List.replicate (k + 3) q ++ rest := by
    rw [← List.replicate_append_replicate, List.append_assoc]
    rfl
  unfold closeLong
  rw [hsplit, run_replicate_append hrest, List.length_replicate, if_neg (by omega),
    Nat.min_eq_left (by omega), Nat.add_sub_cancel, List.drop_left' List.length_replicate]

/-- Two quotes or less before another character close nothing. -/
theorem closeLong_inside {k : Nat} (hk : k ≤ 2) {rest : List Char} (hrest : rest.head? ≠ some q) :
    closeLong q (List.replicate k q ++ rest) = none := by
  rw [closeLong, run_replicate_append hrest, List.length_replicate]
  exact if_pos (by omega)

/-- A text is its first run of a character, and what stands behind it. -/
theorem exists_run (q : Char) (cs : List Char) :
    ∃ t, cs = List.replicate (cs.takeWhile (· = q)).length q ++ t ∧ t.head? ≠ some q := by
  refine ⟨cs.dropWhile (· = q), ?_, ?_⟩
  · have hrun : cs.takeWhile (· = q) = List.replicate (cs.takeWhile (· = q)).length q :=
      List.eq_replicate_of_mem fun c hc => by simpa using List.mem_takeWhile_imp hc
    rw [← hrun, List.takeWhile_append_dropWhile]
  · intro h
    have := List.head?_dropWhile_not (· = q) cs
    rw [h] at this
    simp at this

/-- Where a text in a long string is read: either it consists of quotes, and the string closes
behind them, or it does not close here. -/
theorem closeLong_append {cs : List Char} (hrun : (cs.takeWhile (· = q)).length ≤ 2)
    {rest : List Char} (hrest : rest.head? ≠ some q) :
    (∃ k, cs = List.replicate k q) ∧ closeLong q (cs ++ q :: q :: q :: rest) = some (cs, rest) ∨
      closeLong q (cs ++ q :: q :: q :: rest) = none := by
  obtain ⟨t, ht, hhead⟩ := exists_run q cs
  cases t with
  | nil =>
    rw [List.append_nil] at ht
    have hclose := closeLong_close hrun hrest
    rw [← ht] at hclose
    exact .inl ⟨⟨_, ht⟩, hclose⟩
  | cons c t =>
    have hhead' : (c :: t ++ q :: q :: q :: rest).head? ≠ some q := by simpa using hhead
    have hinside := closeLong_inside hrun hhead'
    rw [← List.append_assoc, ← ht] at hinside
    exact .inr hinside

/-! ## 7. Long literal strings -/

theorem readLongLiteral_closes {cs : List Char} {r : List Char × List Char}
    (h : closeLong '\'' cs = some r) (fuel : Nat) : readLongLiteral (fuel + 1) cs = some r := by
  rw [readLongLiteral.eq_def]
  simp only [h]

theorem readLongLiteral_char {c : Char} {cs : List Char} (hclose : closeLong '\'' (c :: cs) = none)
    (hr : c ≠ '\r') (hp : isPrintable c = true ∨ c = '\n') (fuel : Nat) :
    readLongLiteral (fuel + 1) (c :: cs) =
      (readLongLiteral fuel cs).map fun (v, rest) => (c :: v, rest) := by
  rw [readLongLiteral.eq_def]
  simp only [hclose]
  split
  next he => exact absurd (List.cons.inj he).1 hr
  next he =>
    obtain ⟨rfl, rfl⟩ := List.cons.inj he
    exact if_pos hp
  next he => cases he

theorem readLongLiteral_append {fuel : Nat} {cs : List Char} (hfuel : cs.length < fuel)
    (hrun : ∀ ds, ds <:+ cs → (ds.takeWhile (· = '\'')).length ≤ 2)
    (hc : ∀ c ∈ cs, isControl c = false) {rest : List Char} (hrest : rest.head? ≠ some '\'') :
    readLongLiteral fuel (cs ++ '\'' :: '\'' :: '\'' :: rest) = some (cs, rest) := by
  induction cs generalizing fuel with
  | nil =>
    obtain ⟨fuel, rfl⟩ : ∃ n, fuel = n + 1 := ⟨fuel - 1, by simp at hfuel; omega⟩
    have hclose := closeLong_close (k := 0) (by decide) hrest
    rw [List.replicate_zero, List.nil_append] at hclose
    exact readLongLiteral_closes hclose fuel
  | cons c cs ih =>
    obtain ⟨fuel, rfl⟩ : ∃ n, fuel = n + 1 := ⟨fuel - 1, by simp at hfuel; omega⟩
    have ih : readLongLiteral fuel (cs ++ '\'' :: '\'' :: '\'' :: rest) = some (cs, rest) := ih
      (by simpa using hfuel) (fun ds hds => hrun ds (hds.trans (List.suffix_cons c cs)))
      (fun d hd => hc d (List.mem_cons_of_mem c hd))
    have hhere := hc c List.mem_cons_self
    have hreturn : c ≠ '\r' := by rintro rfl; cases hhere
    rcases closeLong_append (hrun (c :: cs) List.suffix_rfl) hrest with ⟨-, hclose⟩ | hclose
    · exact readLongLiteral_closes hclose fuel
    · rw [List.cons_append] at hclose ⊢
      rw [readLongLiteral_char hclose hreturn (isPrintable_of_not_isControl hhere), ih]
      rfl

/-! ## 8. Long basic strings -/

theorem joinLines?_of_ne {x : Char} (hspace : isSpace x = false) (hn : x ≠ '\n') (hr : x ≠ '\r')
    (cs : List Char) : joinLines? (x :: cs) = none := by
  rw [joinLines?, List.dropWhile_cons_of_neg (by simp [hspace])]
  split
  next he => exact absurd (List.cons.inj he).1 hn
  next he => exact absurd (List.cons.inj he).1 hr
  next => rfl

theorem readLongBasic_escape {c : Char} {e : List Char} (h : IsEscape c e) (fuel : Nat)
    (cs : List Char) :
    readLongBasic (fuel + 1) (e ++ cs) =
      (readLongBasic fuel cs).map fun (v, rest) => (c :: v, rest) := by
  obtain ⟨x, t, rfl, hspace, hn, hr⟩ := h.begins
  have hread := h.reads cs
  have hclose : closeLong '"' ('\\' :: x :: t ++ cs) = none :=
    closeLong_inside (k := 0) (by decide) (by simp)
  rw [List.tail_cons, List.cons_append] at hread
  rw [readLongBasic.eq_def]
  simp only [hclose]
  simp only [List.cons_append, joinLines?_of_ne hspace hn hr, hread]
  show (readLongBasic fuel cs >>= fun r => some (c :: r.1, r.2)) = _
  cases readLongBasic fuel cs <;> rfl

theorem readLongBasic_char {c : Char} {cs : List Char} (hclose : closeLong '"' (c :: cs) = none)
    (hb : c ≠ '\\') (hr : c ≠ '\r') (hp : isPrintable c = true ∨ c = '\n') (fuel : Nat) :
    readLongBasic (fuel + 1) (c :: cs) =
      (readLongBasic fuel cs).map fun (v, rest) => (c :: v, rest) := by
  rw [readLongBasic.eq_def]
  simp only [hclose]
  split
  next he => exact absurd (List.cons.inj he).1 hb
  next he => exact absurd (List.cons.inj he).1 hr
  next he =>
    obtain ⟨rfl, rfl⟩ := List.cons.inj he
    exact if_pos hp
  next he => cases he

theorem readLongBasic_closes {cs : List Char} {r : List Char × List Char}
    (h : closeLong '"' cs = some r) (fuel : Nat) : readLongBasic (fuel + 1) cs = some r := by
  rw [readLongBasic.eq_def]
  simp only [h]

/-- Any text is read back from a long basic string, wherever in a run of quotes it begins. -/
theorem readLongBasic_escapeAll {fuel run : Nat} {cs : List Char} (hfuel : cs.length < fuel)
    {rest : List Char} (hrest : rest.head? ≠ some '"') :
    readLongBasic fuel (escapeAll true 2 run cs ++ '"' :: '"' :: '"' :: rest) =
      some (cs, rest) := by
  -- No matter how many quotes stand before, what follows has no more than two until the string
  -- closes.
  induction cs generalizing fuel run with
  | nil =>
    obtain ⟨fuel, rfl⟩ : ∃ n, fuel = n + 1 := ⟨fuel - 1, by simp at hfuel; omega⟩
    have hclose := closeLong_close (k := 0) (by decide) hrest
    rw [List.replicate_zero, List.nil_append] at hclose
    exact readLongBasic_closes hclose fuel
  | cons c cs ih =>
    obtain ⟨fuel, rfl⟩ : ∃ n, fuel = n + 1 := ⟨fuel - 1, by simp at hfuel; omega⟩
    have hlength : cs.length < fuel := by simpa using hfuel
    have hrun : ((escapeAll true 2 run (c :: cs)).takeWhile (· = '"')).length ≤ 2 :=
      Nat.le_trans (run_escapeAll true 2 (c :: cs)) (Nat.sub_le 2 run)
    rcases closeLong_append hrun hrest with ⟨⟨k, hquotes⟩, hclose⟩ | hclose
    · -- The string closes here, so the text is made of quotes, and none of them has an escape.
      have hsame : escapeAll true 2 run (c :: cs) = c :: cs :=
        hquotes.trans (eq_of_quotes_escapeAll hquotes).symm
      rw [hsame] at hclose ⊢
      exact readLongBasic_closes hclose fuel
    · obtain ⟨run', e, he, heq⟩ := escapeAll_cons true 2 run c cs
      rw [heq, List.append_assoc] at hclose ⊢
      cases he with
      | escape h => rw [readLongBasic_escape h, ih hlength]; rfl
      | itself hb hr hp _ =>
        rw [List.singleton_append] at hclose ⊢
        rw [readLongBasic_char hclose hb hr (hp.imp_right And.right), ih hlength]
        rfl

/-! ## 9. Values -/

theorem dropBreak_of_ne {cs : List Char} (hn : cs.head? ≠ some '\n') (hr : cs.head? ≠ some '\r') :
    dropBreak cs = cs := by
  rw [dropBreak.eq_def]
  split
  next => exact absurd rfl hn
  next => exact absurd rfl hr
  next => rfl

/-- A text of several lines has a line break put before it, and it is taken off again. -/
theorem dropBreak_lead {cs out : List Char} (hn : '\n' ∉ cs → out.head? ≠ some '\n')
    (hr : out.head? ≠ some '\r') :
    dropBreak ((if '\n' ∈ cs then ['\n'] else []) ++ out) = out := by
  split
  next => rfl
  next h => exact dropBreak_of_ne (hn h) hr

theorem head?_append_quotes {out rest : List Char} {c : Char} (hc : c ≠ q)
    (h : out.head? ≠ some c) : (out ++ q :: rest).head? ≠ some c := by
  cases out with
  | nil => simpa using hc.symm
  | cons d out => exact h

theorem readText_short {c : Char} {cs : List Char}
    (h : ∀ d, c = d → cs.head? = some d → cs.tail.head? = some d → d ≠ '"' ∧ d ≠ '\'') :
    readText (c :: cs) = readShortText (c :: cs) := by
  rw [readText]
  · rintro _ he
    cases he
    exact (h '"' rfl rfl rfl).1 rfl
  · rintro _ he
    cases he
    exact (h '\'' rfl rfl rfl).2 rfl

variable {rest : List Char}

theorem readText_basic (cs : List Char) (hrest : rest.head? ≠ some '"') :
    readText ('"' :: (escapeAll false 0 0 cs ++ '"' :: rest)) = some (cs, rest) := by
  have hfuel := length_le_escapeAll false 0 0 cs
  rw [readText_short, readShortText, readBasic_escapeAll (by simp; omega)]
  -- Three quotes would need one inside, or one behind an empty string.
  rintro _ rfl hfirst hsecond
  exfalso
  cases cs with
  | nil => exact hrest hsecond
  | cons c cs =>
    obtain ⟨run', e, he, heq⟩ := escapeAll_cons false 0 0 c cs
    rw [heq] at hfirst
    cases he with
    | escape h =>
      obtain ⟨x, t, rfl, -⟩ := h.begins
      simp at hfirst
    | itself _ _ _ hquote => exact absurd (hquote (by simpa using hfirst)).1 (Nat.not_lt_zero 0)

theorem readText_literal {cs : List Char} (hne : cs ≠ []) (hq : '\'' ∉ cs)
    (hp : ∀ c ∈ cs, isPrintable c = true) :
    readText ('\'' :: (cs ++ '\'' :: rest)) = some (cs, rest) := by
  rw [readText_short, readShortText, readLiteral_append hq hp]
  rintro _ rfl hfirst -
  exfalso
  cases cs with
  | nil => exact hne rfl
  | cons c cs =>
    have hc : c = '\'' := by simpa using hfirst
    exact hq (hc ▸ List.mem_cons_self)

theorem readText_longBasic (cs : List Char) (hrest : rest.head? ≠ some '"') :
    readText ('"' :: '"' :: '"' :: ((if '\n' ∈ cs then ['\n'] else []) ++
      (escapeAll true 2 0 cs ++ '"' :: '"' :: '"' :: rest))) = some (cs, rest) := by
  obtain ⟨hr, hn⟩ := @head?_escapeAll true 2 0 cs
  have hfuel := length_le_escapeAll true 2 0 cs
  rw [readText, dropBreak_lead (fun h => head?_append_quotes (by decide) (hn h))
    (head?_append_quotes (by decide) hr)]
  exact readLongBasic_escapeAll (by simp; omega) hrest

theorem readText_longLiteral {cs : List Char} (hrun : longestRun '\'' cs ≤ 2)
    (hc : ∀ c ∈ cs, isControl c = false) (hrest : rest.head? ≠ some '\'') :
    readText ('\'' :: '\'' :: '\'' :: ((if '\n' ∈ cs then ['\n'] else []) ++
      (cs ++ '\'' :: '\'' :: '\'' :: rest))) = some (cs, rest) := by
  have hr : cs.head? ≠ some '\r' := by
    intro h
    have := hc '\r' (List.mem_of_head? h)
    cases this
  have hn : '\n' ∉ cs → cs.head? ≠ some '\n' := fun h he => h (List.mem_of_head? he)
  rw [readText, dropBreak_lead (fun h => head?_append_quotes (by decide) (hn h))
    (head?_append_quotes (by decide) hr)]
  exact readLongLiteral_append (by simp; omega)
    (fun ds hds => Nat.le_trans (run_le_longestRun hds) hrun) hc hrest

/-- The texts that a form can hold: the literal ones have no escapes. -/
def StringForm.Holds (cs : List Char) : StringForm → Prop
  | basic | longBasic => True
  | literal => cs ≠ [] ∧ '\'' ∉ cs ∧ ∀ c ∈ cs, isPrintable c = true
  | longLiteral => longestRun '\'' cs ≤ 2 ∧ ∀ c ∈ cs, isControl c = false

theorem holds_formOf (cs : List Char) : (formOf cs).Holds cs := by
  have hplain (h : ¬cs.any isControl = true) : ∀ c ∈ cs, isControl c = false := by
    intro c hc
    cases hcontrol : isControl c with
    | false => rfl
    | true => exact absurd (List.any_eq_true.mpr ⟨c, hc, hcontrol⟩) h
  unfold formOf
  simp only
  split
  next => trivial
  next hbasic =>
    split
    next h =>
      obtain ⟨hcontrols, hsingles, hlines⟩ := h
      refine ⟨?_, not_mem_of_longestRun_eq_zero hsingles, fun c hc => ?_⟩
      · rintro rfl
        exact hbasic (by decide)
      · exact (isPrintable_of_not_isControl (hplain hcontrols c hc)).resolve_right
          fun he => hlines (he ▸ hc)
    split
    next => trivial
    split
    next h => exact ⟨h.2, hplain h.1⟩
    split
    next => trivial
    next => trivial

/-- A text is read back from its value, whatever follows it but a quote. -/
theorem readText_quote (s : String) (hdouble : rest.head? ≠ some '"')
    (hsingle : rest.head? ≠ some '\'') :
    readText ((quote s).toList ++ rest) = some (s.toList, rest) := by
  have hform := holds_formOf s.toList
  rw [quote, String.toList_ofList]
  split
  next =>
    rw [List.cons_append, List.cons_append, List.append_assoc]
    exact readText_basic s.toList hdouble
  next h =>
    rw [h] at hform
    obtain ⟨hne, hq, hp⟩ := hform
    rw [List.cons_append, List.cons_append, List.append_assoc]
    exact readText_literal hne hq hp
  next =>
    rw [List.append_assoc, List.append_assoc, List.append_assoc]
    exact readText_longBasic s.toList hdouble
  next h =>
    rw [h] at hform
    obtain ⟨hrun, hc⟩ := hform
    rw [List.append_assoc, List.append_assoc, List.append_assoc]
    exact readText_longLiteral hrun hc hsingle

end ScriptPlugins.Toml
