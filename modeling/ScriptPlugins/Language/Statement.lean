import ScriptPlugins.Language.Lexer
import ScriptPlugins.Outcome

/-!
# Statements — the grammar of configuration scripts

A script is a list of statements, each ended by a line feed, a semicolon or the end of the text:
a block of plugin requests, a line for the console, the application of a plugin, or the setting of
a property.  The line of a statement is the line of its first token.
-/

namespace ScriptPlugins.Language

/-! ## 1. Statements -/

/-- One request of a plugins block: `id 'x' [version 'v'] [apply true|false]`. -/
structure PluginSpec where
  id : String
  version : Option String
  apply : Bool
  line : Nat
  deriving DecidableEq, Repr

/-- What a statement says. -/
inductive Form where
  | plugins (specs : List PluginSpec)
  | println (text : String)
  | applyPlugin (id : String)
  | setProperty (key value : String)
  deriving DecidableEq, Repr

structure Statement where
  line : Nat
  form : Form
  deriving DecidableEq, Repr

/-! ## 2. Refusals -/

/-- Why a run of tokens is no script. -/
inductive ParseFault where
  | unsupported (name : String)
  | unexpected (kind : TokenKind)
  | notAtEnd (kind : TokenKind)
  | missing (what : String)
  | missingText (after : String)
  | openBlock
  | notASpec
  | missingSwitch
  deriving DecidableEq, Repr

namespace ParseFault

def message : ParseFault → String
  | unsupported name => "unsupported statement '" ++ name ++ "'"
  | unexpected kind => "unexpected " ++ kind.describe
  | notAtEnd kind => "unexpected " ++ kind.describe ++ " at end of statement"
  | missing what => "expected " ++ what
  | missingText after => "expected a string after " ++ after
  | openBlock => "unterminated plugins block"
  | notASpec => "only 'id' declarations are allowed inside plugins \x7b\x7d"
  | missingSwitch => "expected true or false after apply"

end ParseFault

/-- A refusal with the line it belongs to. -/
structure ParseError where
  line : Nat
  fault : ParseFault
  deriving DecidableEq, Repr

def ParseError.message (e : ParseError) : String := onLine e.line e.fault.message

/-! ## 3. Readers of single tokens

A reader answers a value and the tokens it leaves, or a refusal.  A text that ends too
early is refused at the line of its last token, `last`. -/

/-- The token that has to stand next. -/
def takeKind (last : Nat) (kind : TokenKind) (what : String) :
    List Token → Except ParseError (Unit × List Token)
  | [] => .error ⟨last, .missing what⟩
  | t :: ts => if t.kind = kind then .ok ((), ts) else .error ⟨t.line, .missing what⟩

/-- The string that has to stand next. -/
def takeText (last : Nat) (after : String) : List Token → Except ParseError (String × List Token)
  | [] => .error ⟨last, .missingText after⟩
  | t :: ts =>
    match t.kind with
    | .text value => .ok (value, ts)
    | _ => .error ⟨t.line, .missingText after⟩

/-- A statement ends with a terminator or with the text; inside a block also before its brace. -/
def takeEnd (inBlock : Bool) : List Token → Except ParseError (Unit × List Token)
  | [] => .ok ((), [])
  | t :: ts =>
    if t.isTerminator then .ok ((), ts)
    else if inBlock ∧ t.kind = .closeBrace then .ok ((), t :: ts)
    else .error ⟨t.line, .notAtEnd t.kind⟩

/-- The version of a request, if one is given. -/
def takeVersion (last : Nat) : List Token → Except ParseError (Option String × List Token)
  | [] => .ok (none, [])
  | t :: ts =>
    if t.isWord "version" then
      (takeText last "version" ts).map fun (value, rest) => (some value, rest)
    else .ok (none, t :: ts)

/-- Whether a request is applied; it is unless it says `apply false`. -/
def takeSwitch (line : Nat) : List Token → Except ParseError (Bool × List Token)
  | [] => .ok (true, [])
  | t :: ts =>
    if t.isWord "apply" then
      match ts with
      | [] => .error ⟨line, .missingSwitch⟩
      | u :: us =>
        if u.isWord "true" then .ok (true, us)
        else if u.isWord "false" then .ok (false, us)
        else .error ⟨line, .missingSwitch⟩
    else .ok (true, t :: ts)

/-! ## 4. Plugins blocks -/

/-- The request behind a word `id` that stands on the given line. -/
def takeSpec (last line : Nat) (ts : List Token) : Except ParseError (PluginSpec × List Token) := do
  let (id, ts) ← takeText last "id" ts
  let (version, ts) ← takeVersion last ts
  let (apply, ts) ← takeSwitch line ts
  let ((), ts) ← takeEnd true ts
  return (⟨id, version, apply, line⟩, ts)

/-! No reader gives back more tokens than it was given. -/

theorem length_of_takeKind {last : Nat} {kind : TokenKind} {what : String} {ts : List Token}
    {r : Unit × List Token} (h : takeKind last kind what ts = .ok r) : r.2.length < ts.length := by
  cases ts with
  | nil => simp [takeKind] at h
  | cons t ts =>
    simp only [takeKind] at h
    split at h
    · cases h; exact Nat.lt_succ_self _
    · cases h

theorem length_of_takeText {last : Nat} {after : String} {ts : List Token}
    {r : String × List Token} (h : takeText last after ts = .ok r) : r.2.length < ts.length := by
  cases ts with
  | nil => simp [takeText] at h
  | cons t ts =>
    simp only [takeText] at h
    split at h
    · cases h; exact Nat.lt_succ_self _
    · cases h

theorem length_of_takeEnd {inBlock : Bool} {ts : List Token} {r : Unit × List Token}
    (h : takeEnd inBlock ts = .ok r) : r.2.length ≤ ts.length := by
  cases ts with
  | nil => cases h; exact Nat.le_refl _
  | cons t ts =>
    simp only [takeEnd] at h
    split at h
    · cases h; exact Nat.le_succ _
    · split at h
      · cases h; exact Nat.le_refl _
      · cases h

/-- Either nothing is taken, or `version` with the text behind it. -/
theorem takeVersion_cases {last : Nat} {ts rest : List Token} {version : Option String}
    (h : takeVersion last ts = .ok (version, rest)) :
    (rest = ts ∧ version = none ∧ ∀ t us, ts = t :: us → ¬t.isWord "version") ∨
      ∃ t us value, ts = t :: us ∧ t.isWord "version" ∧ version = some value ∧
        takeText last "version" us = .ok (value, rest) := by
  cases ts with
  | nil => cases h; exact .inl ⟨rfl, rfl, fun _ _ he => nomatch he⟩
  | cons t ts =>
    simp only [takeVersion] at h
    split at h
    next ht =>
      obtain ⟨⟨value, us⟩, htext, he⟩ := map_eq_ok h
      cases he
      exact .inr ⟨t, ts, value, rfl, ht, rfl, htext⟩
    next ht =>
      cases h
      exact .inl ⟨rfl, rfl, fun _ _ he => (List.cons.inj he).1 ▸ ht⟩

theorem length_of_takeVersion {last : Nat} {ts : List Token} {r : Option String × List Token}
    (h : takeVersion last ts = .ok r) : r.2.length ≤ ts.length := by
  rcases takeVersion_cases h with ⟨he, -⟩ | ⟨t, us, value, he, -, -, htext⟩
  · exact Nat.le_of_eq (congrArg List.length he)
  · rw [he]
    exact Nat.le_succ_of_le (Nat.le_of_lt (length_of_takeText htext))

/-- Either nothing is taken, or `apply` with the word that says whether. -/
theorem takeSwitch_cases {line : Nat} {ts rest : List Token} {apply : Bool}
    (h : takeSwitch line ts = .ok (apply, rest)) :
    (rest = ts ∧ apply = true ∧ ∀ t us, ts = t :: us → ¬t.isWord "apply") ∨
      ∃ t u, ts = t :: u :: rest ∧ t.isWord "apply" ∧
        u.isWord (bif apply then "true" else "false") := by
  cases ts with
  | nil => cases h; exact .inl ⟨rfl, rfl, fun _ _ he => nomatch he⟩
  | cons t ts =>
    simp only [takeSwitch] at h
    split at h
    next ht =>
      cases ts with
      | nil => cases h
      | cons u us =>
        simp only at h
        split at h
        next hu => cases h; exact .inr ⟨t, u, rfl, ht, hu⟩
        next =>
          split at h
          next hu => cases h; exact .inr ⟨t, u, rfl, ht, hu⟩
          next => cases h
    next ht =>
      cases h
      exact .inl ⟨rfl, rfl, fun _ _ he => (List.cons.inj he).1 ▸ ht⟩

theorem length_of_takeSwitch {line : Nat} {ts : List Token} {r : Bool × List Token}
    (h : takeSwitch line ts = .ok r) : r.2.length ≤ ts.length := by
  rcases takeSwitch_cases h with ⟨he, -⟩ | ⟨t, u, he, -⟩
  · exact Nat.le_of_eq (congrArg List.length he)
  · rw [he]
    exact Nat.le_succ_of_le (Nat.le_succ _)

theorem length_of_takeSpec {last line : Nat} {ts : List Token} {r : PluginSpec × List Token}
    (h : takeSpec last line ts = .ok r) : r.2.length < ts.length := by
  obtain ⟨r₁, h₁, h⟩ := bind_eq_ok h
  obtain ⟨r₂, h₂, h⟩ := bind_eq_ok h
  obtain ⟨r₃, h₃, h⟩ := bind_eq_ok h
  obtain ⟨r₄, h₄, h⟩ := bind_eq_ok h
  have := length_of_takeText h₁
  have := length_of_takeVersion h₂
  have := length_of_takeSwitch h₃
  have := length_of_takeEnd h₄
  cases h
  show r₄.2.length < _
  omega

theorem length_dropWhile_le {α : Type} (p : α → Bool) (l : List α) :
    (l.dropWhile p).length ≤ l.length := (List.dropWhile_sublist p).length_le

/-- The requests of a block that was opened on the given line, up to its closing brace. -/
def takeSpecs (last line : Nat) (ts : List Token) :
    Except ParseError (List PluginSpec × List Token) :=
  match _hd : ts.dropWhile Token.isTerminator with
  | [] => .error ⟨line, .openBlock⟩
  | t :: rest =>
    if t.kind = .closeBrace then .ok ([], rest)
    else if t.isWord "id" then
      match _hs : takeSpec last t.line rest with
      | .error e => .error e
      | .ok (spec, rest) =>
        (takeSpecs last line rest).map fun (specs, rest) => (spec :: specs, rest)
    else .error ⟨t.line, .notASpec⟩
termination_by ts.length
decreasing_by
  have h₁ : rest.length < _ := length_of_takeSpec _hs
  have h₂ := length_dropWhile_le Token.isTerminator ts
  rw [_hd, List.length_cons] at h₂
  omega

/-- How the requests of a block are read: one after the other, up to the brace that closes. -/
inductive SpecsRead (last : Nat) : List Token → List PluginSpec → List Token → Prop
  | closing {ts rest : List Token} {t : Token} (next : ts.dropWhile Token.isTerminator = t :: rest)
      (brace : t.kind = .closeBrace) : SpecsRead last ts [] rest
  | request {ts us vs rest : List Token} {t : Token} {spec : PluginSpec} {specs : List PluginSpec}
      (next : ts.dropWhile Token.isTerminator = t :: us) (word : t.isWord "id")
      (read : takeSpec last t.line us = .ok (spec, vs)) (others : SpecsRead last vs specs rest) :
      SpecsRead last ts (spec :: specs) rest

theorem specsRead_of_takeSpecs {last line : Nat} {ts rest : List Token} {specs : List PluginSpec}
    (h : takeSpecs last line ts = .ok (specs, rest)) : SpecsRead last ts specs rest := by
  induction hn : ts.length using Nat.strongRecOn generalizing ts specs with
  | ind n ih =>
    have hl := length_dropWhile_le Token.isTerminator ts
    rw [takeSpecs] at h
    split at h
    next => cases h
    next t us hd =>
      rw [hd, List.length_cons] at hl
      split at h
      next hbrace =>
        cases h
        exact .closing hd hbrace
      next =>
        split at h
        next hword =>
          split at h
          next => cases h
          next spec vs hs =>
            obtain ⟨⟨specs', rest'⟩, hothers, he⟩ := map_eq_ok h
            cases he
            -- A request takes tokens, so there are fewer for the others.
            have hlen : vs.length < us.length := length_of_takeSpec hs
            exact .request hd hword hs (ih vs.length (by omega) hothers rfl)
        next => cases h

theorem SpecsRead.length_lt {last : Nat} {ts rest : List Token} {specs : List PluginSpec}
    (h : SpecsRead last ts specs rest) : rest.length < ts.length := by
  induction h with
  | @closing ts rest t next =>
    have hl := length_dropWhile_le Token.isTerminator ts
    rw [next, List.length_cons] at hl
    exact hl
  | @request ts us vs rest t spec specs next _ read _ ih =>
    have hl := length_dropWhile_le Token.isTerminator ts
    rw [next, List.length_cons] at hl
    have hvs : vs.length < us.length := length_of_takeSpec read
    omega

theorem length_of_takeSpecs {last line : Nat} {ts : List Token} {r : List PluginSpec × List Token}
    (h : takeSpecs last line ts = .ok r) : r.2.length < ts.length :=
  (specsRead_of_takeSpecs h).length_lt

/-! ## 5. Statements and scripts -/

/-- The key that a word like `ext.key` sets. -/
def propertyKey (name : String) : Option String :=
  match name.toList with
  | 'e' :: 'x' :: 't' :: '.' :: c :: cs => some (String.ofList (c :: cs))
  | _ => none

/-- What the statement that begins with the token `t` says. -/
def takeForm (last : Nat) (t : Token) (ts : List Token) : Except ParseError (Form × List Token) :=
  match t.kind with
  | .word name =>
    if name = "plugins" then do
      let ts := ts.dropWhile Token.isLineFeed
      let ((), ts) ← takeKind last .openBrace "'\x7b' after plugins" ts
      let (specs, ts) ← takeSpecs last t.line ts
      return (.plugins specs, ts)
    else if name = "println" then do
      let (text, ts) ← takeText last "println" ts
      return (.println text, ts)
    else if name = "apply" then do
      let ((), ts) ← takeKind last (.word "plugin") "'plugin'" ts
      let ((), ts) ← takeKind last .colon "':'" ts
      let (id, ts) ← takeText last "apply plugin:" ts
      return (.applyPlugin id, ts)
    else match propertyKey name with
      | some key => do
        let ((), ts) ← takeKind last .equals "'='" ts
        let (value, ts) ← takeText last name ts
        return (.setProperty key value, ts)
      | none => .error ⟨t.line, .unsupported name⟩
  | kind => .error ⟨t.line, .unexpected kind⟩

/-- The statement that begins with the token `t`, with its end. -/
def takeStatement (last : Nat) (t : Token) (ts : List Token) :
    Except ParseError (Statement × List Token) := do
  let (form, ts) ← takeForm last t ts
  let ((), ts) ← takeEnd false ts
  return (⟨t.line, form⟩, ts)

/-- How a statement is read, by the word that it begins with. -/
inductive FormRead (last : Nat) (t : Token) (ts : List Token) : Form → List Token → Prop
  | plugins {us rest : List Token} {specs : List PluginSpec} (word : t.kind = .word "plugins")
      (brace : takeKind last .openBrace "'\x7b' after plugins" (ts.dropWhile Token.isLineFeed) =
        .ok ((), us))
      (read : takeSpecs last t.line us = .ok (specs, rest)) :
        FormRead last t ts (.plugins specs) rest
  | println {rest : List Token} {text : String} (word : t.kind = .word "println")
      (read : takeText last "println" ts = .ok (text, rest)) :
        FormRead last t ts (.println text) rest
  | applyPlugin {us vs rest : List Token} {id : String} (word : t.kind = .word "apply")
      (plugin : takeKind last (.word "plugin") "'plugin'" ts = .ok ((), us))
      (colon : takeKind last .colon "':'" us = .ok ((), vs))
      (read : takeText last "apply plugin:" vs = .ok (id, rest)) :
      FormRead last t ts (.applyPlugin id) rest
  | setProperty {us rest : List Token} {name key value : String} (word : t.kind = .word name)
      (sets : propertyKey name = some key) (equals : takeKind last .equals "'='" ts = .ok ((), us))
      (read : takeText last name us = .ok (value, rest)) :
      FormRead last t ts (.setProperty key value) rest

theorem formRead_of_takeForm {last : Nat} {t : Token} {ts rest : List Token} {form : Form}
    (h : takeForm last t ts = .ok (form, rest)) : FormRead last t ts form rest := by
  simp only [takeForm] at h
  split at h
  next name hname =>
    split at h
    next hplugins =>
      obtain ⟨⟨⟨⟩, us⟩, hbrace, h⟩ := bind_eq_ok h
      obtain ⟨⟨specs, vs⟩, hspecs, h⟩ := bind_eq_ok h
      cases h
      exact .plugins (hplugins ▸ hname) hbrace hspecs
    next =>
      split at h
      next hprintln =>
        obtain ⟨⟨text, us⟩, htext, h⟩ := bind_eq_ok h
        cases h
        exact .println (hprintln ▸ hname) htext
      next =>
        split at h
        next happly =>
          obtain ⟨⟨⟨⟩, us⟩, hplugin, h⟩ := bind_eq_ok h
          obtain ⟨⟨⟨⟩, vs⟩, hcolon, h⟩ := bind_eq_ok h
          obtain ⟨⟨id, ws⟩, hid, h⟩ := bind_eq_ok h
          cases h
          exact .applyPlugin (happly ▸ hname) hplugin hcolon hid
        next =>
          split at h
          next key hkey =>
            obtain ⟨⟨⟨⟩, us⟩, hequals, h⟩ := bind_eq_ok h
            obtain ⟨⟨value, vs⟩, hvalue, h⟩ := bind_eq_ok h
            cases h
            exact .setProperty hname hkey hequals hvalue
          next => cases h
  next => cases h

theorem length_of_takeForm {last : Nat} {t : Token} {ts : List Token} {r : Form × List Token}
    (h : takeForm last t ts = .ok r) : r.2.length < ts.length := by
  obtain ⟨form, rest⟩ := r
  show rest.length < ts.length
  cases formRead_of_takeForm h with
  | @plugins us _ _ _ brace read =>
    have hdrop := length_dropWhile_le Token.isLineFeed ts
    have hus : us.length < _ := length_of_takeKind brace
    have hrest : rest.length < us.length := length_of_takeSpecs read
    omega
  | println _ read => exact length_of_takeText read
  | @applyPlugin us vs _ _ _ plugin colon read =>
    have hus : us.length < ts.length := length_of_takeKind plugin
    have hvs : vs.length < us.length := length_of_takeKind colon
    have hrest : rest.length < vs.length := length_of_takeText read
    omega
  | @setProperty us _ _ _ _ _ _ equals read =>
    have hus : us.length < ts.length := length_of_takeKind equals
    have hrest : rest.length < us.length := length_of_takeText read
    omega

theorem length_of_takeStatement {last : Nat} {t : Token} {ts : List Token}
    {r : Statement × List Token} (h : takeStatement last t ts = .ok r) :
    r.2.length < ts.length := by
  obtain ⟨r₁, h₁, h⟩ := bind_eq_ok h
  obtain ⟨r₂, h₂, h⟩ := bind_eq_ok h
  have := length_of_takeForm h₁
  have := length_of_takeEnd h₂
  cases h
  show r₂.2.length < _
  omega

/-- All statements of a run of tokens. -/
def takeStatements (last : Nat) (ts : List Token) : Except ParseError (List Statement) :=
  match _hd : ts.dropWhile Token.isTerminator with
  | [] => .ok []
  | t :: rest =>
    match _hs : takeStatement last t rest with
    | .error e => .error e
    | .ok (s, rest) => (takeStatements last rest).map (s :: ·)
termination_by ts.length
decreasing_by
  have h₁ : rest.length < _ := length_of_takeStatement _hs
  have h₂ := length_dropWhile_le Token.isTerminator ts
  rw [_hd, List.length_cons] at h₂
  omega

/-- The line at which a text that ends too early is refused. -/
def lastLine (ts : List Token) : Nat := (ts.getLast?.map Token.line).getD 1

/-- The statements of a script, in order. -/
def parse (ts : List Token) : Except ParseError (List Statement) := takeStatements (lastLine ts) ts

end ScriptPlugins.Language
