import ScriptPlugins.Compiled.ClassText
import ScriptPlugins.Proofs.Json.Values

/-!
# Class text — a class that was printed is read back

The lines of a class have to fit into the numbers that the reader takes for lines.
-/

namespace ScriptPlugins

open Json

/-- Classes that can be read back: their lines are no greater than the reader allows. -/
def CompiledClass.Readable (c : CompiledClass) : Prop := ∀ s ∈ c.steps, s.line ≤ lineLimit

theorem ScriptKind.ofName?_name (k : ScriptKind) : ofName? k.name = some k := by
  cases k <;> rfl

theorem Phase.ofName?_name (p : Phase) : ofName? p.name = some p := by
  cases p <;> rfl

theorem ScriptKind.ofJson?_toJson (k : ScriptKind) : ofJson? k.toJson = some k := k.ofName?_name

theorem Phase.ofJson?_toJson (p : Phase) : ofJson? p.toJson = some p := p.ofName?_name

theorem asNat_ofNat {limit n : Nat} (h : n ≤ limit) : asNat limit (ofNat n) = some n := by
  rw [ofNat, asNat, String.toList_ofList, Text.numeral?_decimal]
  simp [Option.filter, h]

theorem PluginRequest.ofJson?_members (r : PluginRequest) :
    PluginRequest.ofJson? (object r.members) = some r := by
  obtain ⟨id, version, apply⟩ := r
  cases version <;>
    simp [PluginRequest.ofJson?, PluginRequest.members, fields, member?, required,
      Json.optional, asText, asBool]

theorem Action.ofMembers?_members (a : Action) :
    Action.ofMembers? a.word a.members = some a := by
  cases a with
  | println s => simp [Action.ofMembers?, Action.word, Action.members, member?, required, asText]
  | requestPlugin r =>
    simp [Action.ofMembers?, Action.word, Action.members, PluginRequest.ofJson?_members]
  | applyPlugin id =>
    simp [Action.ofMembers?, Action.word, Action.members, member?, required, asText]
  | setProperty key value =>
    simp [Action.ofMembers?, Action.word, Action.members, member?, required, asText]

/-- No field of an action is called like the line or the word of a step, and all can be kept. -/
theorem Action.mem_members {a : Action} {m : String × Json} (h : m ∈ a.members) :
    m.1 ≠ "line" ∧ m.1 ≠ "op" ∧ m.2.sound ∧ m.2.depth = 0 ∧ m.2.Plain := by
  cases a with
  | requestPlugin r =>
    obtain ⟨id, version, apply⟩ := r
    cases version <;> simp only [members, PluginRequest.members, Option.map_none, Option.map_some,
      Option.toList_none, Option.toList_some, List.mem_cons, List.cons_append, List.nil_append,
      List.not_mem_nil, or_false] at h
    · rcases h with rfl | rfl <;> simp [sound, depth, Plain]
    · rcases h with rfl | rfl | rfl <;> simp [sound, depth, Plain]
  | println s =>
    simp only [members, List.mem_singleton] at h
    subst h
    simp [sound, depth, Plain]
  | applyPlugin id =>
    simp only [members, List.mem_singleton] at h
    subst h
    simp [sound, depth, Plain]
  | setProperty key value =>
    simp only [members, List.mem_cons, List.not_mem_nil, or_false] at h
    rcases h with rfl | rfl <;> simp [sound, depth, Plain]

theorem member?_cons_self {key : String} {x : Json} {ms : List (String × Json)}
    (h : ∀ m ∈ ms, m.1 ≠ key) : member? key ((key, x) :: ms) = some (some x) := by
  have hf : ms.filter (·.1 = key) = [] := List.filter_eq_nil_iff.mpr fun m hm => by simp [h m hm]
  rw [member?, List.filter_cons_of_pos (by simp), hf]

theorem filter_key_eq_self {key : String} {ms : List (String × Json)}
    (h : ∀ m ∈ ms, m.1 ≠ key) : ms.filter (·.1 ≠ key) = ms :=
  List.filter_eq_self.mpr fun m hm => by simp [h m hm]

theorem Step.ofJson?_toJson {s : Step} (h : s.line ≤ lineLimit) : ofJson? s.toJson = some s := by
  obtain ⟨line, action⟩ := s
  have hline : ∀ m ∈ ("op", text action.word) :: action.members, m.1 ≠ "line" := by
    intro m hm
    rcases List.mem_cons.mp hm with rfl | hm
    · simp
    · exact (Action.mem_members hm).1
  have hop : ∀ m ∈ action.members, m.1 ≠ "op" := fun m hm => (Action.mem_members hm).2.1
  have hkeep : (("op", text action.word) :: action.members).all
      (fun m => m.2.keepable 3) = true := by
    rw [List.all_eq_true]
    intro m hm
    rcases List.mem_cons.mp hm with rfl | hm
    · simp [keepable, sound, depth, depthLimit]
    · obtain ⟨-, -, hs, hd, -⟩ := Action.mem_members hm
      simp [keepable, hs, hd, depthLimit]
  rw [toJson, ofJson?]
  simp only [member?_cons_self hline, required, Option.bind_eq_bind, Option.bind_some,
    asNat_ofNat h]
  rw [List.filter_cons_of_neg (by simp), filter_key_eq_self hline, if_pos hkeep,
    member?_cons_self hop]
  simp only [Option.bind_some]
  rw [List.filter_cons_of_neg (by simp), filter_key_eq_self hop]
  show (Action.ofMembers? action.word action.members >>= _) = _
  rw [Action.ofMembers?_members]
  rfl

theorem mapM_ofJson?_toJson {ss : List Step} (h : ∀ s ∈ ss, s.line ≤ lineLimit) :
    (ss.map Step.toJson).mapM Step.ofJson? = some ss := by
  induction ss with
  | nil => rfl
  | cons s ss ih =>
    rw [List.map_cons, List.mapM_cons, Step.ofJson?_toJson (h s List.mem_cons_self),
      ih fun t ht => h t (List.mem_cons_of_mem s ht)]
    rfl

theorem CompiledClass.ofJson?_toJson {c : CompiledClass} (h : c.Readable) :
    ofJson? c.toJson = some c := by
  have hs := mapM_ofJson?_toJson h
  simp [ofJson?, toJson, fields, member?, required, asText, asList, hs,
    Phase.ofJson?_toJson, ScriptKind.ofJson?_toJson]

/-! ## The text -/

theorem plainMembers_of_forall {ms : List (String × Json)} (h : ∀ m ∈ ms, m.2.Plain) :
    PlainMembers ms := by
  induction ms with
  | nil => trivial
  | cons m ms ih =>
    exact ⟨h m List.mem_cons_self, ih fun m' hm => h m' (List.mem_cons_of_mem m hm)⟩

theorem Step.plain_toJson (s : Step) : s.toJson.Plain := by
  refine plainMembers_of_forall fun m hm => ?_
  rcases List.mem_cons.mp hm with rfl | hm
  · exact ⟨s.line, rfl⟩
  · rcases List.mem_cons.mp hm with rfl | hm
    · trivial
    · exact (Action.mem_members hm).2.2.2.2

theorem CompiledClass.plain_toJson (c : CompiledClass) : c.toJson.Plain := by
  have hs : ∀ ss : List Step, PlainList (ss.map Step.toJson) := by
    intro ss
    induction ss with
    | nil => trivial
    | cons s ss ih => exact ⟨s.plain_toJson, ih⟩
  exact ⟨trivial, trivial, trivial, hs c.steps, trivial⟩

/-- **A class is read back from its file.** -/
theorem CompiledClass.read_print {c : CompiledClass} (h : c.Readable) : read c.print = some c := by
  rw [read, print, read_printLaidOut c.plain_toJson]
  exact ofJson?_toJson h

end ScriptPlugins
