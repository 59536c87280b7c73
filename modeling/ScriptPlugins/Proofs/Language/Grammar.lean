import Mathlib.Data.Set.Basic
import ScriptPlugins.Language.Statement

/-!
# Grammar — derivations of scripts, and that no two have the same tokens

A derivation is a tree whose leaves are the tokens of a script:

    script    ::= T* [statement (T+ statement)* T*]
    statement ::= `plugins` linefeed* { T* [spec (T+ spec)* T*] } | `println` text
                | `apply` `plugin` : text | `ext.`key = text
    spec      ::= `id` text [`version` text] [`apply` (`true` | `false`)]

where `T` is a line feed or a semicolon and a key is not empty.  The grammar has no choice that its
tokens do not decide, so a derivation is told by its tokens, also in front of what may follow it.
-/

namespace ScriptPlugins.Language

/-! ## 1. Leaves -/

/-- A token with the value that it stands for: its kind is the one that belongs to the value. -/
structure Leaf {α : Type} (kindOf : α → TokenKind) where
  token : Token
  value : α
  kind_eq : token.kind = kindOf value

/-- The one kind of a token without a value. -/
def only (kind : TokenKind) (_ : Unit) : TokenKind := kind

/-- The kinds that end a statement. -/
def terminatorKind (semicolon : Bool) : TokenKind := bif semicolon then .semicolon else .lineFeed

/-- The words behind `apply` in a request. -/
def switchKind (apply : Bool) : TokenKind := .word (bif apply then "true" else "false")

/-- The words that set a property. -/
def keyKind (key : {key : String // key ≠ ""}) : TokenKind := .word ("ext." ++ key)

abbrev Mark (kind : TokenKind) := Leaf (only kind)

abbrev TextLeaf := Leaf TokenKind.text

abbrev Terminator := Leaf terminatorKind

variable {α : Type} {kindOf : α → TokenKind} {kind : TokenKind} {t : Token} {ts r s : List Token}

theorem exists_leaf (h : t.kind ∈ Set.range kindOf) : ∃ l : Leaf kindOf, l.token = t := by
  obtain ⟨v, hv⟩ := h
  exact ⟨⟨t, v, hv.symm⟩, rfl⟩

theorem Leaf.kind_mem (l : Leaf kindOf) : l.token.kind ∈ Set.range kindOf :=
  ⟨l.value, l.kind_eq.symm⟩

theorem exists_mark (h : t.kind = kind) : ∃ m : Mark kind, m.token = t := exists_leaf ⟨(), h.symm⟩

theorem only_injective : Function.Injective (only kind) := Function.injective_of_subsingleton _

theorem text_injective : Function.Injective TokenKind.text := fun _ _ => TokenKind.text.inj

theorem terminatorKind_injective : Function.Injective terminatorKind := by
  unfold Function.Injective
  decide

theorem switchKind_injective : Function.Injective switchKind := by
  unfold Function.Injective
  decide

theorem keyKind_injective : Function.Injective keyKind := by
  intro k l h
  exact Subtype.ext ((String.append_right_inj _).mp (TokenKind.word.inj h))

/-- The words that set a property are those with the first four characters `ext.` and others. -/
theorem propertyKey_eq_some_iff {name key : String} :
    propertyKey name = some key ↔ key ≠ "" ∧ name = "ext." ++ key := by
  rw [propertyKey]
  constructor
  · intro h
    split at h
    next c cs hname =>
      cases h
      refine ⟨by simp, String.toList_inj.mp ?_⟩
      simp [hname]
    next => cases h
  · rintro ⟨hkey, rfl⟩
    have hname : ("ext." ++ key).toList = 'e' :: 'x' :: 't' :: '.' :: key.toList := by simp
    rw [hname]
    cases hcs : key.toList with
    | nil => exact absurd (String.toList_eq_nil_iff.mp hcs) hkey
    | cons c cs =>
      show some (String.ofList (c :: cs)) = some key
      rw [← hcs, String.ofList_toList]

/-- No word that sets a property is a word that sets none. -/
theorem key_ne (key : {key : String // key ≠ ""}) (name : String) (h : propertyKey name = none) :
    "ext." ++ key.val ≠ name := by
  intro hname
  rw [propertyKey_eq_some_iff.mpr ⟨key.property, hname.symm⟩] at h
  cases h

theorem word_not_terminator (name : String) : .word name ∉ Set.range terminatorKind := by
  rintro ⟨b, hb⟩
  cases b <;> cases hb

theorem closeBrace_not_terminator : .closeBrace ∉ Set.range terminatorKind := by
  rintro ⟨b, hb⟩
  cases b <;> cases hb

theorem isTerminator_iff : t.isTerminator ↔ t.kind ∈ Set.range terminatorKind := by
  rw [Token.isTerminator, Set.mem_range, Bool.exists_bool]
  cases t.kind <;> simp [TokenKind.isTerminator, terminatorKind]

theorem isLineFeed_iff : t.isLineFeed ↔ t.kind ∈ Set.range (only .lineFeed) := by
  rw [Token.isLineFeed, beq_iff_eq, eq_comm]
  exact ⟨fun h => ⟨(), h⟩, fun ⟨_, h⟩ => h⟩

theorem isWord_iff {name : String} : t.isWord name ↔ t.kind = .word name := by
  simp [Token.isWord]

/-! ## 2. Lists of elements, set apart by terminators -/

/-- `x (T+ x)* T*`. -/
structure Items (α : Type) where
  first : α
  others : List ({breaks : List Terminator // breaks ≠ []} × α)
  tail : List Terminator

/-- `T* [x (T+ x)* T*]`. -/
structure Listing (α : Type) where
  lead : List Terminator
  items : Option (Items α)

namespace Items

def toList (i : Items α) : List α := i.first :: i.others.map Prod.snd

/-- The tokens of some elements, each of which has the tokens `w` says. -/
def tokens (w : α → List Token) (i : Items α) : List Token :=
  w i.first ++ (i.others.flatMap fun p => p.1.val.map Leaf.token ++ w p.2) ++ i.tail.map Leaf.token

/-- What stands behind the first of some elements is a list again. -/
def behind (i : Items α) : Listing α :=
  match i.others with
  | [] => ⟨i.tail, none⟩
  | (breaks, x) :: others => ⟨breaks, some ⟨x, others, i.tail⟩⟩

end Items

namespace Listing

def toList (l : Listing α) : List α := l.items.elim [] Items.toList

def tokens (w : α → List Token) (l : Listing α) : List Token :=
  l.lead.map Leaf.token ++ l.items.elim [] (Items.tokens w)

/-- Elements are taken off a list one by one. -/
theorem inductionOn {P : Listing α → Prop} (l : Listing α) (blank : ∀ lead, P ⟨lead, none⟩)
    (step : ∀ lead i, P i.behind → P ⟨lead, some i⟩) : P l := by
  obtain ⟨lead, _ | ⟨first, others, tail⟩⟩ := l
  · exact blank lead
  · induction others generalizing lead first with
    | nil => exact step lead _ (blank tail)
    | cons p others ih => exact step lead _ (ih p.1 p.2)

end Listing

namespace Items

variable {w : α → List Token}

theorem toList_eq (i : Items α) : i.toList = i.first :: i.behind.toList := by
  obtain ⟨first, _ | ⟨p, others⟩, tail⟩ := i <;> rfl

theorem tokens_eq (i : Items α) : i.tokens w = w i.first ++ i.behind.tokens w := by
  obtain ⟨first, _ | ⟨p, others⟩, tail⟩ := i <;> simp [tokens, behind, Listing.tokens]

theorem eq_of_behind {i j : Items α} (hfirst : i.first = j.first) (h : i.behind = j.behind) :
    i = j := by
  obtain ⟨x, _ | ⟨⟨⟨b, hb⟩, p⟩, others⟩, tail⟩ := i <;>
    obtain ⟨y, _ | ⟨⟨⟨c, hc⟩, q⟩, others'⟩, tail'⟩ := j <;>
    simp_all [behind]

/-- A list that is empty or begins with a terminator stands behind an element. -/
theorem exists_of_behind (x : α) {l : Listing α} (h : l.lead ≠ [] ∨ l.items = none) :
    ∃ i : Items α, i.first = x ∧ i.behind = l := by
  obtain ⟨lead, _ | ⟨first, others, tail⟩⟩ := l
  · exact ⟨⟨x, [], lead⟩, rfl, rfl⟩
  · have hlead : lead ≠ [] := by simpa using h
    exact ⟨⟨x, (⟨lead, hlead⟩, first) :: others, tail⟩, rfl, rfl⟩

end Items

/-! ## 3. Derivations -/

/-- The tokens of a part that may be left out: a word and what belongs to it. -/
def optional {name : String} (o : Option (Mark (.word name) × Leaf kindOf)) : List Token :=
  o.elim [] fun p => [p.1.token, p.2.token]

/-- The value of a part that may be left out. -/
def optionalValue {name : String} (o : Option (Mark (.word name) × Leaf kindOf)) : Option α :=
  o.map fun p => p.2.value

/-- `id` text [`version` text] [`apply` (`true` | `false`)]. -/
structure SpecTree where
  word : Mark (.word "id")
  id : TextLeaf
  version : Option (Mark (.word "version") × TextLeaf)
  switch : Option (Mark (.word "apply") × Leaf switchKind)

namespace SpecTree

/-- The tokens behind the first one. -/
def others (x : SpecTree) : List Token :=
  x.id.token :: (optional x.version ++ optional x.switch)

def tokens (x : SpecTree) : List Token := x.word.token :: x.others

/-- The request that a derivation stands for; its line is that of its first token. -/
def spec (x : SpecTree) : PluginSpec where
  id := x.id.value
  version := optionalValue x.version
  apply := (optionalValue x.switch).getD true
  line := x.word.token.line

end SpecTree

inductive StatementTree where
  | plugins (word : Mark (.word "plugins")) (breaks : List (Mark .lineFeed))
      (opening : Mark .openBrace) (specs : Listing SpecTree) (closing : Mark .closeBrace)
  | println (word : Mark (.word "println")) (text : TextLeaf)
  | applyPlugin (word : Mark (.word "apply")) (plugin : Mark (.word "plugin")) (colon : Mark .colon)
      (id : TextLeaf)
  | setProperty (key : Leaf keyKind) (equals : Mark .equals) (value : TextLeaf)

namespace StatementTree

/-- The word that a statement begins with. -/
def first : StatementTree → Token
  | plugins word .. => word.token
  | println word _ => word.token
  | applyPlugin word .. => word.token
  | setProperty key .. => key.token

/-- The tokens behind the first one. -/
def others : StatementTree → List Token
  | plugins _ breaks opening specs closing =>
    breaks.map Leaf.token ++ opening.token :: (specs.tokens SpecTree.tokens ++ [closing.token])
  | println _ text => [text.token]
  | applyPlugin _ plugin colon id => [plugin.token, colon.token, id.token]
  | setProperty _ equals value => [equals.token, value.token]

def tokens (x : StatementTree) : List Token := x.first :: x.others

def form : StatementTree → Form
  | plugins _ _ _ specs _ => .plugins (specs.toList.map SpecTree.spec)
  | println _ text => .println text.value
  | applyPlugin _ _ _ id => .applyPlugin id.value
  | setProperty key _ value => .setProperty key.value value.value

/-- The statement that a derivation stands for; its line is that of its first token. -/
def statement (x : StatementTree) : Statement := ⟨x.first.line, x.form⟩

end StatementTree

/-- The derivation of a whole script. -/
abbrev ScriptTree := Listing StatementTree

namespace ScriptTree

def tokens (d : ScriptTree) : List Token := Listing.tokens StatementTree.tokens d

def statements (d : ScriptTree) : List Statement := d.toList.map StatementTree.statement

end ScriptTree

/-! ## 4. What may follow -/

/-- Tokens that do not begin with one of some kinds. -/
def Unled (kindOf : α → TokenKind) (ts : List Token) : Prop :=
  ∀ t ∈ ts.head?, t.kind ∉ Set.range kindOf

/-- What may stand behind a statement or, in a block, behind a request. -/
def Ends (inBlock : Bool) (ts : List Token) : Prop :=
  ∀ t ∈ ts.head?, t.kind ∈ Set.range terminatorKind ∨ inBlock ∧ t.kind = .closeBrace

/-- What stands behind all statements or, in a block, behind all requests. -/
def Stops : Bool → List Token → Prop
  | false, ts => ts = []
  | true, ts => ∃ t ∈ ts.head?, t.kind = .closeBrace

/-- Trees with these tokens begin with a word. -/
def Worded (w : α → List Token) : Prop := ∀ x, ∃ t ts name, w x = t :: ts ∧ t.kind = .word name

variable {w : α → List Token} {inBlock : Bool}

theorem Stops.ends (h : Stops inBlock r) : Ends inBlock r := by
  cases inBlock with
  | false => obtain rfl : r = [] := h; simp [Ends]
  | true =>
    obtain ⟨t, ht, hk⟩ := h
    intro u hu
    obtain rfl := Option.mem_unique hu ht
    exact .inr ⟨rfl, hk⟩

/-- No word begins what ends an element, so no optional part is left there. -/
theorem Ends.unled {name : String} (h : Ends inBlock r) : Unled (only (.word name)) r := by
  rintro t ht ⟨⟨⟩, hk : TokenKind.word name = _⟩
  rcases h t ht with hb | ⟨-, hc⟩
  · exact word_not_terminator name (hk ▸ hb)
  · rw [← hk] at hc
    cases hc

/-- No terminator begins what stands behind all elements. -/
theorem Stops.unled (h : Stops inBlock r) : Unled terminatorKind r := by
  intro t ht hk
  cases inBlock with
  | false =>
    obtain rfl : r = [] := h
    cases ht
  | true =>
    obtain ⟨u, hu, hc⟩ := h
    obtain rfl := Option.mem_unique ht hu
    exact closeBrace_not_terminator (hc ▸ hk)

/-- No terminator begins a word. -/
theorem Worded.unled (hw : Worded w) (x : α) : Unled terminatorKind (w x ++ r) := by
  obtain ⟨u, us, name, hx, hk⟩ := hw x
  rw [hx]
  intro t ht hb
  obtain rfl : u = t := by simpa using ht
  exact word_not_terminator name (hk ▸ hb)

/-- A word neither ends an element nor stands behind all of them. -/
theorem Worded.not_ends (hw : Worded w) (x : α) : ¬Ends inBlock (w x ++ r) := by
  obtain ⟨u, us, name, hx, hk⟩ := hw x
  rw [hx]
  intro h
  rcases h u rfl with hb | ⟨-, hc⟩
  · exact word_not_terminator name (hk ▸ hb)
  · rw [hk] at hc
    cases hc

theorem Items.tokens_append (i : Items α) :
    i.tokens w ++ r = w i.first ++ (i.behind.tokens w ++ r) := by
  rw [i.tokens_eq, List.append_assoc]

theorem Listing.tokens_none (lead : List Terminator) :
    Listing.tokens w ⟨lead, none⟩ ++ r = lead.map Leaf.token ++ r := by
  simp [Listing.tokens]

theorem Listing.tokens_some (lead : List Terminator) (i : Items α) :
    Listing.tokens w ⟨lead, some i⟩ ++ r =
      lead.map Leaf.token ++ (w i.first ++ (i.behind.tokens w ++ r)) := by
  rw [← Items.tokens_append, ← List.append_assoc]
  rfl

theorem Mark.unled (opening : Mark .openBrace) : Unled (only .lineFeed) (opening.token :: r) := by
  rintro t ⟨⟩ ⟨⟨⟩, hk⟩
  rw [opening.kind_eq] at hk
  cases hk

theorem Mark.stops (closing : Mark .closeBrace) : Stops true (closing.token :: r) :=
  ⟨closing.token, rfl, closing.kind_eq⟩

theorem Listing.toList_some (lead : List Terminator) (i : Items α) :
    toList ⟨lead, some i⟩ = i.first :: i.behind.toList := i.toList_eq

theorem ends_lead {lead : List Terminator} (h : lead ≠ []) (r : List Token) :
    Ends inBlock (lead.map Leaf.token ++ r) := by
  obtain ⟨l, ls, rfl⟩ := List.exists_cons_of_ne_nil h
  intro t ht
  obtain rfl : l.token = t := by simpa using ht
  exact .inl l.kind_mem

/-- What stands behind an element of a list ends it. -/
theorem Items.ends_behind (i : Items α) (hr : Stops inBlock r) :
    Ends inBlock (i.behind.tokens w ++ r) := by
  obtain ⟨x, _ | ⟨⟨breaks, y⟩, others⟩, tail⟩ := i
  · show Ends inBlock (Listing.tokens w ⟨tail, none⟩ ++ r)
    rw [Listing.tokens_none]
    by_cases ht : tail = []
    · subst ht
      exact hr.ends
    · exact ends_lead ht r
  · show Ends inBlock (Listing.tokens w ⟨breaks, some ⟨y, others, tail⟩⟩ ++ r)
    rw [Listing.tokens_some]
    exact ends_lead breaks.property _

/-- A list of elements that ends an element stands behind one. -/
theorem Listing.exists_behind (hw : Worded w) (x : α) {l : Listing α}
    (h : Ends inBlock (l.tokens w ++ r)) : ∃ i : Items α, i.first = x ∧ i.behind = l := by
  apply Items.exists_of_behind
  obtain ⟨_ | ⟨t, lead⟩, _ | i⟩ := l
  · exact .inr rfl
  · rw [Listing.tokens_some] at h
    exact absurd h (hw.not_ends _)
  · exact .inr rfl
  · exact .inl (List.cons_ne_nil t lead)

/-! ## 5. Derivations are told by their tokens -/

/-- Trees are told by their tokens `w`, if only what may follow them stands behind. -/
def Told (w : α → List Token) (Follows : List Token → Prop) : Prop :=
  ∀ ⦃x y : α⦄ ⦃r s : List Token⦄, Follows r → Follows s → w x ++ r = w y ++ s → x = y ∧ r = s

theorem Leaf.eq_of_token (hk : Function.Injective kindOf) {l m : Leaf kindOf}
    (h : l.token = m.token) : l = m := by
  obtain ⟨t, v, hv⟩ := l
  obtain ⟨u, v', hv'⟩ := m
  obtain rfl : t = u := h
  obtain rfl : v = v' := hk (hv.symm.trans hv')
  rfl

theorem Leaf.cons_inj (hk : Function.Injective kindOf) {l m : Leaf kindOf}
    (h : l.token :: r = m.token :: s) : l = m ∧ r = s :=
  ⟨Leaf.eq_of_token hk (List.cons.inj h).1, (List.cons.inj h).2⟩

theorem told_leaves (hk : Function.Injective kindOf) :
    Told (fun ls : List (Leaf kindOf) => ls.map Leaf.token) (Unled kindOf) := by
  intro ls ms r s hr hs h
  induction ls generalizing ms with
  | nil =>
    cases ms with
    | nil => exact ⟨rfl, h⟩
    | cons m ms =>
      obtain rfl : r = m.token :: (ms.map Leaf.token ++ s) := h
      exact absurd m.kind_mem (hr _ rfl)
  | cons l ls ih =>
    cases ms with
    | nil =>
      obtain rfl : l.token :: (ls.map Leaf.token ++ r) = s := h
      exact absurd l.kind_mem (hs _ rfl)
    | cons m ms =>
      obtain ⟨rfl, htail⟩ := Leaf.cons_inj hk h
      obtain ⟨rfl, rfl⟩ := ih htail
      exact ⟨rfl, rfl⟩

theorem told_optional (hk : Function.Injective kindOf) (name : String) :
    Told (fun o : Option (Mark (.word name) × Leaf kindOf) => optional o)
      (Unled (only (.word name))) := by
  rintro (_ | ⟨p, l⟩) (_ | ⟨q, m⟩) r s hr hs h
  · exact ⟨rfl, h⟩
  · obtain rfl : r = q.token :: m.token :: s := h
    exact absurd q.kind_mem (hr _ rfl)
  · obtain rfl : p.token :: l.token :: r = s := h
    exact absurd p.kind_mem (hs _ rfl)
  · obtain ⟨rfl, htail⟩ := Leaf.cons_inj only_injective h
    obtain ⟨rfl, rfl⟩ := Leaf.cons_inj hk htail
    exact ⟨rfl, rfl⟩

/-- A list is told by its tokens if its elements are, in front of what may follow them. -/
theorem Listing.told (hw : Worded w) (h : Told w (Ends inBlock)) :
    Told (Listing.tokens w) (Stops inBlock) := by
  intro d d' r s hr hs heq
  have hlead := told_leaves terminatorKind_injective
  -- Either list may be without elements, but then the other one is too: no element begins like
  -- what stands behind a list.
  induction d using Listing.inductionOn generalizing d' with
  | blank lead =>
    obtain ⟨lead', _ | j⟩ := d'
    · rw [tokens_none, tokens_none] at heq
      obtain ⟨rfl, rfl⟩ := hlead hr.unled hs.unled heq
      exact ⟨rfl, rfl⟩
    · rw [tokens_none, tokens_some] at heq
      obtain ⟨-, rfl⟩ := hlead hr.unled (hw.unled _) heq
      exact absurd hr.ends (hw.not_ends _)
  | step lead i ih =>
    obtain ⟨lead', _ | j⟩ := d'
    · rw [tokens_none, tokens_some] at heq
      obtain ⟨-, rfl⟩ := hlead (hw.unled _) hs.unled heq
      exact absurd hs.ends (hw.not_ends _)
    · rw [tokens_some, tokens_some] at heq
      obtain ⟨rfl, hitems⟩ := hlead (hw.unled _) (hw.unled _) heq
      obtain ⟨hfirst, hrest⟩ := h (i.ends_behind hr) (j.ends_behind hs) hitems
      obtain ⟨hbehind, rfl⟩ := ih hrest
      exact ⟨by rw [Items.eq_of_behind hfirst hbehind], rfl⟩

theorem SpecTree.worded : Worded SpecTree.tokens := fun x => ⟨_, _, _, rfl, x.word.kind_eq⟩

/-- A part that may be left out begins with its own word only. -/
theorem optional_unled {name other : String} {o : Option (Mark (.word name) × Leaf kindOf)}
    (hne : name ≠ other) (hr : Unled (only (.word other)) r) :
    Unled (only (.word other)) (optional o ++ r) := by
  obtain _ | ⟨p, l⟩ := o
  · exact hr
  · rintro t ht ⟨⟨⟩, hk : TokenKind.word other = _⟩
    obtain rfl : p.token = t := by simpa [optional] using ht
    exact hne (TokenKind.word.inj (p.kind_eq.symm.trans hk.symm))

theorem SpecTree.told : Told SpecTree.tokens (Ends inBlock) := by
  rintro ⟨word, id, version, switch⟩ ⟨word', id', version', switch'⟩ r s hr hs h
  simp only [tokens, others, List.cons_append, List.append_assoc] at h
  -- The version ends where the switch or what follows the request begins.
  have hne : "apply" ≠ "version" := by decide
  obtain ⟨rfl, hid⟩ := Leaf.cons_inj only_injective h
  obtain ⟨rfl, hversion⟩ := Leaf.cons_inj text_injective hid
  obtain ⟨rfl, hswitch⟩ := told_optional text_injective "version" (optional_unled hne hr.unled)
    (optional_unled hne hs.unled) hversion
  obtain ⟨rfl, rfl⟩ := told_optional switchKind_injective "apply" hr.unled hs.unled hswitch
  exact ⟨rfl, rfl⟩

namespace StatementTree

/-- The text of the word that a statement begins with. -/
def keyword : StatementTree → String
  | plugins .. => "plugins"
  | println .. => "println"
  | applyPlugin .. => "apply"
  | setProperty key .. => "ext." ++ key.value

theorem kind_first (x : StatementTree) : x.first.kind = .word x.keyword := by
  cases x with
  | plugins word => exact word.kind_eq
  | println word => exact word.kind_eq
  | applyPlugin word => exact word.kind_eq
  | setProperty key => exact key.kind_eq

theorem worded : Worded tokens := fun x => ⟨_, _, _, rfl, x.kind_first⟩

theorem told : Told tokens (Ends inBlock) := by
  intro x y r s hr hs h
  -- The first words are the same, so both statements are of one form.
  have hk : x.keyword = y.keyword := by
    have hfirst : x.first = y.first := (List.cons.inj h).1
    rw [← TokenKind.word.injEq, ← kind_first, ← kind_first, hfirst]
  cases x with
  | plugins word breaks opening specs closing =>
    cases y with
    | plugins word' breaks' opening' specs' closing' =>
      simp only [tokens, first, others, List.cons_append, List.append_assoc, List.nil_append] at h
      obtain ⟨rfl, hbreaks⟩ := Leaf.cons_inj only_injective h
      obtain ⟨rfl, hopening⟩ := told_leaves only_injective opening.unled opening'.unled hbreaks
      obtain ⟨rfl, hspecs⟩ := Leaf.cons_inj only_injective hopening
      obtain ⟨rfl, hclosing⟩ := Listing.told SpecTree.worded SpecTree.told closing.stops
        closing'.stops hspecs
      obtain ⟨rfl, rfl⟩ := Leaf.cons_inj only_injective hclosing
      exact ⟨rfl, rfl⟩
    | setProperty => exact absurd hk.symm (key_ne _ "plugins" (by decide))
    | _ => simp [keyword] at hk
  | println word text =>
    cases y with
    | println word' text' =>
      obtain ⟨rfl, htext⟩ := Leaf.cons_inj only_injective h
      obtain ⟨rfl, rfl⟩ := Leaf.cons_inj text_injective htext
      exact ⟨rfl, rfl⟩
    | setProperty => exact absurd hk.symm (key_ne _ "println" (by decide))
    | _ => simp [keyword] at hk
  | applyPlugin word plugin colon id =>
    cases y with
    | applyPlugin word' plugin' colon' id' =>
      obtain ⟨rfl, hplugin⟩ := Leaf.cons_inj only_injective h
      obtain ⟨rfl, hcolon⟩ := Leaf.cons_inj only_injective hplugin
      obtain ⟨rfl, hid⟩ := Leaf.cons_inj only_injective hcolon
      obtain ⟨rfl, rfl⟩ := Leaf.cons_inj text_injective hid
      exact ⟨rfl, rfl⟩
    | setProperty => exact absurd hk.symm (key_ne _ "apply" (by decide))
    | _ => simp [keyword] at hk
  | setProperty key equals value =>
    cases y with
    | setProperty key' equals' value' =>
      obtain ⟨rfl, hequals⟩ := Leaf.cons_inj keyKind_injective h
      obtain ⟨rfl, hvalue⟩ := Leaf.cons_inj only_injective hequals
      obtain ⟨rfl, rfl⟩ := Leaf.cons_inj text_injective hvalue
      exact ⟨rfl, rfl⟩
    | plugins => exact absurd hk (key_ne _ "plugins" (by decide))
    | println => exact absurd hk (key_ne _ "println" (by decide))
    | applyPlugin => exact absurd hk (key_ne _ "apply" (by decide))

end StatementTree

/-- **No two derivations have the same tokens.** -/
theorem ScriptTree.tokens_injective : Function.Injective tokens := by
  intro d d' h
  have htold : Told (Listing.tokens StatementTree.tokens) (Stops false) :=
    Listing.told StatementTree.worded StatementTree.told
  exact (htold rfl rfl (congrArg (· ++ []) h)).1

end ScriptPlugins.Language
