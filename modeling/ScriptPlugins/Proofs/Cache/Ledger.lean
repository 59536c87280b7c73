import ScriptPlugins.Proofs.Cache.Attempting
import ScriptPlugins.Proofs.Cache.Incremental
import ScriptPlugins.Proofs.Cache.Listing

/-!
# Ledger — the cache as a finite map

What happens to a cache is written down, the latest event first.  The cache lists the names that
were compiled and neither failed nor were removed since, each with the metadata of that compilation.
-/

namespace ScriptPlugins

/-! ## 1. Events -/

/-- What happens to the entries of a cache. -/
inductive CacheEvent where
  | compiled (name : String) (m : Metadata)
  | failed (name : String)
  | removed (name : String)
  | cleaned

namespace CacheEvent

def concerns (name : String) : CacheEvent → Bool
  | compiled n _ | failed n | removed n => n = name
  | cleaned => true

/-- What is left of the entries that an event concerns. -/
def metadata? : CacheEvent → Option Metadata
  | compiled _ m => some m
  | failed _ | removed _ | cleaned => none

end CacheEvent

/-- What the latest event that concerns a name leaves of it. -/
def recorded (es : List CacheEvent) (name : String) : Option Metadata :=
  (es.find? (·.concerns name)).bind CacheEvent.metadata?

variable {es : List CacheEvent} {name : String} {m : Metadata}

theorem recorded_cons (e : CacheEvent) (es : List CacheEvent) (name : String) :
    recorded (e :: es) name = if e.concerns name then e.metadata? else recorded es name := by
  rw [recorded, List.find?_cons]
  cases e.concerns name <;> rfl

/-- A name has metadata if it was compiled, and the metadata is that of its latest compilation if
nothing has concerned it since. -/
theorem recorded_eq_some_iff : recorded es name = some m ↔
    ∃ later earlier, es = later ++ .compiled name m :: earlier ∧
      ∀ e ∈ later, e.concerns name = false := by
  induction es with
  | nil => simp [recorded]
  | cons e es ih =>
    rw [recorded_cons]
    -- The latest event decides if it concerns the name, and otherwise what was before it.
    cases hc : e.concerns name with
    | false =>
      rw [if_neg Bool.false_ne_true, ih]
      constructor
      · rintro ⟨later, earlier, rfl, hlater⟩
        exact ⟨e :: later, earlier, rfl, List.forall_mem_cons.mpr ⟨hc, hlater⟩⟩
      · rintro ⟨later, earlier, he, hlater⟩
        cases later with
        | nil => cases he; simp [CacheEvent.concerns] at hc
        | cons e' later => cases he; exact ⟨later, earlier, rfl, (List.forall_mem_cons.mp hlater).2⟩
    | true =>
      rw [if_pos rfl]
      constructor
      · intro hm
        cases e with
        | compiled n m' =>
          cases hm
          obtain rfl : n = name := of_decide_eq_true hc
          exact ⟨[], es, rfl, nofun⟩
        | _ => cases hm
      · rintro ⟨later, earlier, he, hlater⟩
        cases later with
        | nil => cases he; rfl
        | cons e' later =>
          cases he
          rw [(List.forall_mem_cons.mp hlater).1] at hc
          cases hc

/-! ## 2. Attempts as events -/

namespace Cache

/-- What an attempt to compile a phase adds, by its answer: nothing if the entry at hand is used
again. -/
def eventsOf (c : Cache) (s : Script) (phase : Phase) (now : Instant) :
    Except BuildError Bool → List CacheEvent
  | .error _ => [.failed (s.classNameOf phase)]
  | .ok false => []
  | .ok true =>
    match stepsOf phase phase.hook (s.sourceOf phase) with
    | .ok steps => [.compiled (s.classNameOf phase) ((c.key s phase).metadataOf steps now)]
    | .error _ => []

/-- What an attempt to compile a phase adds.  What was compiled counts even if it cannot be loaded
then. -/
def attempt (c : Cache) (compiler : Compiler) (s : Script) (phase : Phase) (w : World) :
    List CacheEvent :=
  c.eventsOf s phase w.now (Job.run (c.refresh compiler s phase).run w).1

/-- What compiling a script adds.  The body is attempted unless the script has a preamble that
fails. -/
def attempts (c : Cache) (compiler : Compiler) (s : Script) (scope : Nat) (w : World) :
    List CacheEvent :=
  (if (Job.run (c.compilePreamble compiler s scope).run w).1.isOk then
    c.attempt compiler s .body (c.worldBefore compiler s scope w .body)
  else []) ++ if s.hasPreamble then c.attempt compiler s .preamble w else []

/-- A script without a preamble attempts its body alone. -/
theorem attempts_of_not (c : Cache) (compiler : Compiler) {s : Script} (hp : s.hasPreamble = false)
    (scope : Nat) (w : World) : c.attempts compiler s scope w = c.attempt compiler s .body w := by
  have hpre : Job.run (c.compilePreamble compiler s scope).run w = (.ok (none, []), w) :=
    run_compilePreamble_of_not compiler hp w
  have hbefore : c.worldBefore compiler s scope w .body = w := congrArg Prod.snd hpre
  simp [attempts, hpre, hp, hbefore, Except.isOk, Except.toBool]

/-! ## 3. Histories -/

/-- A name that a class can have: letters, digits and `_`. -/
def IsClassName (name : String) : Prop :=
  name ≠ "" ∧ ∀ ch ∈ name.toList, isAsciiAlphanumeric ch = true ∨ ch = '_'

theorem IsClassName.isPart (h : IsClassName name) : IsPart name := by
  have hno (ch : Char) (hch : isAsciiAlphanumeric ch = false) (hne : ch ≠ '_') :
      ch ∉ name.toList := fun hm =>
    (h.2 ch hm).elim (fun hyes => by rw [hch] at hyes; cases hyes) hne
  have hdot : '.' ∉ name.toList := hno '.' (by decide) (by decide)
  refine ⟨h.1, hno '/' (by decide) (by decide), ?_, ?_⟩ <;>
    · rintro rfl
      exact hdot (by decide)

/-- The worlds that a cache may come to from roots that hold nothing, with what has happened to it.
Scripts are compiled through it in any scopes and by any compilers, with success or without, as long
as the file system does not fail; entries are removed, and the whole cache is.  In between
everything but the files may change. -/
inductive Chronicle (c : Cache) (C M : Location) : List CacheEvent → World → Prop where
  | start {w : World} (h : c.Fresh C M w) : Chronicle c C M [] w
  | compile {es : List CacheEvent} {w : World} (compiler : Compiler) (s : Script) (scope : Nat)
      (hlines : 1 + Language.lineFeeds s.source.toList ≤ lineLimit)
      (hio : ∀ err, (Job.run (c.compileScript compiler s scope).run w).1 = .error err →
        err.isIo = false)
      (h : Chronicle c C M es w) :
      Chronicle c C M (c.attempts compiler s scope w ++ es)
        (Job.run (c.compileScript compiler s scope).run w).2
  | remove {es : List CacheEvent} {w : World} (name : String) (hname : IsClassName name)
      (h : Chronicle c C M es w) :
        Chronicle c C M (.removed name :: es) (Job.run (c.remove name).run w).2
  | clean {es : List CacheEvent} {w : World} (h : Chronicle c C M es w) :
      Chronicle c C M (.cleaned :: es) (Job.run c.clean.run w).2
  | create {es : List CacheEvent} {w : World} (h : Chronicle c C M es w) :
      Chronicle c C M es (Job.run c.create.run w).2
  | meanwhile {es : List CacheEvent} {w w' : World} (hfiles : w'.files = w.files)
      (hnow : w'.now.valid = true) (h : Chronicle c C M es w) : Chronicle c C M es w'

/-- The entries of a cache are what was recorded of each name. -/
structure Books (c : Cache) (C M : Location) (es : List CacheEvent) (w : World) : Prop where
  now : w.now.valid = true
  entries : ∃ made, c.Holds C M made w.files ∧ ∀ n, (made n).map Made.metadata = recorded es n

variable {c : Cache} {C M : Location} {w : World} {compiler : Compiler} {s : Script} {phase : Phase}
  {scope : Nat}

theorem ofFiles_books : Attempt.OfFiles (c.Books C M es) := by
  intro op w hop h
  refine ⟨(Op.now_perform op w).symm ▸ h.now, ?_⟩
  rw [Op.files_perform hop w]
  exact h.entries

namespace Books

/-- One name has become what an event says that concerns no other. -/
theorem update (h : c.Books C M es w) {w' : World} (hnow : w'.now.valid = true) {e : CacheEvent}
    (hconcerns : ∀ n, e.concerns n = decide (n = name))
    (hentry : ∀ made, c.Holds C M made w.files → ∃ entry,
      c.Holds C M (Function.update made name entry) w'.files ∧
        entry.map Made.metadata = e.metadata?) :
    c.Books C M (e :: es) w' := by
  obtain ⟨made, hholds, hmade⟩ := h.entries
  obtain ⟨entry, hholds', he⟩ := hentry made hholds
  refine ⟨hnow, _, hholds', fun n => ?_⟩
  rw [recorded_cons, hconcerns]
  by_cases hn : n = name
  · rw [hn, Function.update_self, he, decide_eq_true rfl, if_pos rfl]
  · rw [Function.update_of_ne hn, hmade, decide_eq_false hn, if_neg Bool.false_ne_true]

variable (compiler phase) in
/-- An attempt to compile a phase. -/
theorem refresh (h : c.Books C M es w) (hlines : 1 + Language.lineFeeds s.source.toList ≤ lineLimit)
    (hio : ∀ err, (Job.run (c.refresh compiler s phase).run w).1 = .error err → err.isIo = false) :
    c.Books C M (c.attempt compiler s phase w ++ es)
      (Job.run (c.refresh compiler s phase).run w).2 := by
  have hnow : (Job.run (c.refresh compiler s phase).run w).2.now.valid = true := by
    rw [Job.now_run]
    exact h.now
  have hconcerns (n : String) :
      (decide (s.classNameOf phase = n)) = decide (n = s.classNameOf phase) :=
    decide_eq_decide.mpr eq_comm
  have hrefresh (made : String → Option Made) (hholds : c.Holds C M made w.files) :=
    hholds.refresh compiler phase h.now hlines hio
  -- A failure is one event, and so is what was compiled; an entry that is used again is none.
  rcases hr : (Job.run (c.refresh compiler s phase).run w).1 with err | ⟨⟨⟩⟩ <;> rw [hr] at hrefresh
  · rw [attempt, hr, eventsOf, List.singleton_append]
    refine h.update hnow hconcerns fun made hholds => ?_
    obtain ⟨entry, hholds', hbecomes⟩ := hrefresh made hholds
    exact ⟨entry, hholds', congrArg (Option.map Made.metadata) hbecomes⟩
  · rw [attempt, hr, eventsOf, List.nil_append]
    obtain ⟨made, hholds, hmade⟩ := h.entries
    obtain ⟨entry, hholds', hbecomes⟩ := hrefresh made hholds
    rw [show entry = made (s.classNameOf phase) from hbecomes, Function.update_eq_self] at hholds'
    exact ⟨hnow, made, hholds', hmade⟩
  · obtain ⟨steps, hsteps, -⟩ := look_of_run_refresh (Prod.ext hr rfl)
    rw [attempt, hr, eventsOf, hsteps, List.singleton_append]
    refine h.update hnow hconcerns fun made hholds => ?_
    obtain ⟨entry, hholds', steps', hsteps', hbecomes⟩ := hrefresh made hholds
    cases hsteps.symm.trans hsteps'
    exact ⟨entry, hholds', hbecomes⟩

variable (compiler phase scope) in
/-- A phase is loaded then, or not, which changes no files. -/
theorem compilePhase (h : c.Books C M es w)
    (hlines : 1 + Language.lineFeeds s.source.toList ≤ lineLimit)
    (hio : ∀ err, (Job.run (c.compilePhase compiler s scope phase).run w).1 = .error err →
      err.isIo = false) :
    c.Books C M (c.attempt compiler s phase w ++ es)
      (Job.run (c.compilePhase compiler s scope phase).run w).2 := by
  rw [compilePhase_eq] at hio ⊢
  -- The books are kept by the attempt on the entry; what is loaded after it is only read.
  rcases hr : Job.run (c.refresh compiler s phase).run w with ⟨err | compiled, w'⟩
  · rw [Attempt.run_bind_error hr] at hio ⊢
    have hbooks := h.refresh compiler phase hlines fun err' herr =>
      hio err' (congrArg Except.error (Except.error.inj ((congrArg Prod.fst hr).symm.trans herr)))
    rwa [hr] at hbooks
  · have hbooks := h.refresh compiler phase hlines fun err' herr => by
      rw [hr] at herr
      cases herr
    rw [hr] at hbooks
    rw [Attempt.run_bind_ok hr]
    exact (leavesFiles_loadPhase phase scope compiled).preserves ofFiles_books _ hbooks

/-- Compiling a script, in whatever scope and however it ends. -/
theorem compileScript (h : c.Books C M es w)
    (hlines : 1 + Language.lineFeeds s.source.toList ≤ lineLimit)
    (hio : ∀ err, (c.runScript compiler s scope w).1 = .error err → err.isIo = false) :
    c.Books C M (c.attempts compiler s scope w ++ es) (c.runScript compiler s scope w).2 := by
  -- If the body is attempted, it is from books that are right.
  have hbody {preamble : Option LoadedUnit} {recompiled : List Phase} {w₁ : World}
      {es₁ : List CacheEvent}
      (hpre : Job.run (c.compilePreamble compiler s scope).run w = (.ok (preamble, recompiled), w₁))
      (h₁ : c.Books C M es₁ w₁) :
      c.Books C M (c.attempt compiler s .body w₁ ++ es₁) (c.runScript compiler s scope w).2 := by
    have hbefore : c.worldBefore compiler s scope w .body = w₁ := congrArg Prod.snd hpre
    obtain ⟨hanswer, hend⟩ := runScript_of_body hpre
    rw [runPhase, hbefore] at hanswer hend
    rw [hend]
    exact h₁.compilePhase compiler .body scope hlines fun err herr =>
      hio err (by rw [hanswer, herr]; rfl)
  cases hp : s.hasPreamble with
  | false =>
    rw [attempts_of_not c compiler hp]
    exact hbody (run_compilePreamble_of_not compiler hp w) h
  | true =>
    have hpreamble := h.compilePhase compiler .preamble scope hlines
    rcases hr : c.runPhase compiler s scope w .preamble with ⟨err | ⟨unit, compiled⟩, w₁⟩
    · -- The preamble failed, so the body is not attempted.
      have hpre := run_compilePreamble_error hp hr
      have hall : c.runScript compiler s scope w = (.error err, w₁) := Attempt.run_bind_error hpre
      have hadds : c.attempts compiler s scope w = c.attempt compiler s .preamble w := by
        simp [attempts, hpre, hp, Except.isOk, Except.toBool]
      have hbooks := hpreamble fun err' herr => by
        rw [← runPhase_preamble, hr] at herr
        have he : err = err' := Except.error.inj herr
        exact hio err' (by rw [hall, he])
      rw [← runPhase_preamble, hr] at hbooks
      rw [hadds, hall]
      exact hbooks
    · have hpre := run_compilePreamble_ok hp hr
      have hbefore : c.worldBefore compiler s scope w .body = w₁ := congrArg Prod.snd hpre
      have hadds : c.attempts compiler s scope w =
          c.attempt compiler s .body w₁ ++ c.attempt compiler s .preamble w := by
        simp [attempts, hpre, hp, hbefore, Except.isOk, Except.toBool]
      have hbooks := hpreamble fun err' herr => by
        rw [← runPhase_preamble, hr] at herr
        cases herr
      rw [← runPhase_preamble, hr] at hbooks
      rw [hadds, List.append_assoc]
      exact hbody hpre hbooks

theorem remove (h : c.Books C M es w) (hname : IsClassName name) :
    c.Books C M (.removed name :: es) (Job.run (c.remove name).run w).2 := by
  have hnow : (Job.run (c.remove name).run w).2.now.valid = true := by
    rw [Job.now_run]
    exact h.now
  refine h.update hnow (fun n => decide_eq_decide.mpr eq_comm) fun made hholds => ?_
  exact ⟨none, hholds.remove h.now hname.isPart, rfl⟩

theorem clean (h : c.Books C M es w) : c.Books C M (.cleaned :: es) (Job.run c.clean.run w).2 := by
  obtain ⟨made, hholds, -⟩ := h.entries
  -- Both roots are empty then, and so are the books.
  obtain ⟨t, hrun, hsame, hC, hM⟩ := hholds.housed.run_clean hholds.shelf.classesRoot.directory
    hholds.shelf.metadataRoot.directory
  rw [hrun]
  have hhoused : c.Housed C M t := hholds.housed.stays hsame
  exact ⟨h.now, fun _ => none, ⟨hhoused, hhoused.shelf hC hM, nofun⟩, fun n => rfl⟩

/-- Opening a cache whose roots are there changes nothing. -/
theorem create (h : c.Books C M es w) : c.Books C M es (Job.run c.create.run w).2 := by
  obtain ⟨made, hholds, -⟩ := h.entries
  rw [hholds.housed.run_create hholds.shelf.classesRoot.directory
    hholds.shelf.metadataRoot.directory]
  exact h

end Books

/-- **The entries of a cache are what was recorded**, whatever has happened to it. -/
theorem Chronicle.books (h : c.Chronicle C M es w) : c.Books C M es w := by
  induction h with
  | start h =>
    exact ⟨h.now, fun _ => none, ⟨h.housed, h.housed.shelf h.classes h.metadata, nofun⟩,
      fun n => rfl⟩
  | compile compiler s scope hlines hio _ ih => exact ih.compileScript hlines hio
  | remove name hname _ ih => exact ih.remove hname
  | clean _ ih => exact ih.clean
  | create _ ih => exact ih.create
  | meanwhile hfiles hnow _ ih => exact ⟨hnow, hfiles ▸ ih.entries⟩

/-- A script that is compiled in a new scope is part of the history. -/
theorem Chronicle.compileInChild (h : c.Chronicle C M es w) (compiler : Compiler)
    (hlines : 1 + Language.lineFeeds s.source.toList ≤ lineLimit) {parent : Nat} {sc : Scope}
    (hsc : w.scopes.scope? parent = some sc) (name : String)
    (hio : ∀ err, (Job.run (c.compileInChild compiler s parent name).run w).1 = .error err →
      err.isIo = false) :
    c.Chronicle C M
      (c.attempts compiler s w.scopes.slots.length (grownWorld w parent sc name) ++ es)
      (Job.run (c.compileInChild compiler s parent name).run w).2 := by
  rw [run_compileInChild hsc] at hio ⊢
  exact .compile compiler s _ hlines hio (.meanwhile (w := w) rfl h.books.now h)

/-! ## 4. Listing what was recorded -/

/-- Every entry can be read, and it is what was recorded of its name. -/
theorem Books.read (h : c.Books C M es w) : ∃ rs, c.read w.files = .ok rs ∧
    rs.filterMap unlisted = [] ∧ ∀ e, e ∈ rs.filterMap c.listed ↔
      recorded es e.className = some e.metadata ∧
      e.classesDir = c.classesDir e.className ∧ e.metadataDir = c.metadataDir e.className := by
  obtain ⟨made, hholds, hmade⟩ := h.entries
  have hpath := hholds.housed.metadataPath
  obtain ⟨ns, hns, hmem⟩ := names_of_locate
    (FileTree.locate_eq hpath.fits hpath.noSlash (hholds.housed.metadataLeads _ (.refl _ w.files)))
    hholds.shelf.metadataRoot.directory
  have hread (n : String) (m : Made) (hm : made n = some m) :
      w.files.readMetadata (c.metadataDir n) = .ok m.metadata := by
    obtain ⟨-, hsound, htakes⟩ := hholds.entries n m hm
    exact hholds.shelf.readMetadata (Set.mem_univ n) htakes
      (by rw [Function.comp_apply, hm]; rfl) hsound
  -- A directory stands in the metadata root for each entry, and for nothing else.
  have hnames (n : String) : n ∈ ns ↔ ∃ m, made n = some m := by
    rw [hmem]
    cases hm : made n with
    | none => simp [(hholds.stores_none hm).2.missing]
    | some m =>
      have hstores :=
        (hholds.shelf.stores (by rw [Function.comp_apply, hm]; rfl) (Set.mem_univ n)).2
      simp [hstores.directory]
  refine ⟨_, by rw [read_eq, hns]; rfl, ?_, fun e => ?_⟩
  · rw [List.filterMap_map, List.filterMap_eq_nil_iff]
    intro n hn
    obtain ⟨m, hm⟩ := (hnames n).mp hn
    rw [Function.comp_apply, hread n m hm]
    rfl
  · rw [List.filterMap_map, List.mem_filterMap, ← hmade]
    constructor
    · rintro ⟨n, hn, he⟩
      obtain ⟨m, hm⟩ := (hnames n).mp hn
      rw [Function.comp_apply, hread n m hm] at he
      cases he
      exact ⟨congrArg (Option.map Made.metadata) hm, rfl, rfl⟩
    · rintro ⟨hrecorded, hclasses, hmetadata⟩
      obtain ⟨m, hm, hmeta⟩ := Option.map_eq_some_iff.mp hrecorded
      refine ⟨e.className, (hnames _).mpr ⟨m, hm⟩, ?_⟩
      rw [Function.comp_apply, hread _ m hm, listed, hmeta, ← hclasses, ← hmetadata]

/-- **Maintaining a cache refines a finite map.**  Whatever has happened to a cache, listing it
answers exactly the names whose latest attempt to be compiled succeeded and that were not removed
since, in order and each of them once, with the metadata of that compilation, and it changes
nothing.  What is recorded of a name is just that: the metadata of a compilation after which no
event has concerned the name.  Whatever stands below the metadata root of any cache, counting agrees
with listing: both fail for one reason, or all entries are those listed and the corrupt ones, and
those whose run does nothing are counted among the listed. -/
theorem list_refines (c : Cache) :
    (∀ C M es w, c.Chronicle C M es w →
      ∃ entries, Job.run c.list.run w = (.ok entries, w) ∧
        entries.Pairwise (fun a b => a.className < b.className) ∧
        ∀ e, e ∈ entries ↔ recorded es e.className = some e.metadata ∧
          e.classesDir = c.classesDir e.className ∧ e.metadataDir = c.metadataDir e.className) ∧
    (∀ es name m, recorded es name = some m ↔ ∃ later earlier,
      es = later ++ .compiled name m :: earlier ∧ ∀ e ∈ later, e.concerns name = false) ∧
    ∀ w, (∃ e, (Job.run c.list.run w).1 = .error e ∧ c.stats w.files = .error e) ∨
      ∃ entries stats, (Job.run c.list.run w).1 = .ok entries ∧ c.stats w.files = .ok stats ∧
        stats.total = entries.length + stats.corrupt ∧
        stats.noop = entries.countP fun e => !e.metadata.runDoesSomething := by
  refine ⟨fun C M es w h => ?_, fun es name m => recorded_eq_some_iff, fun w => ?_⟩
  · obtain ⟨rs, hread, hnone, hmem⟩ := h.books.read
    refine ⟨_, ?_, List.pairwise_map.mp (sorted_list hread), hmem⟩
    rw [run_list hread, hnone, List.append_nil]
  · rcases c.list_counts w with herror | ⟨entries, stats, hlist, hstats, hcounts⟩
    · exact .inl herror
    · exact .inr ⟨entries, stats, hlist, hstats, hcounts.total, hcounts.noop⟩

/-- A script that is compiled in an empty cache is one event: its body has been compiled. -/
theorem attempts_small :
    small.attempts .steady smallScript smallWorld.scopes.slots.length
      (grownWorld smallWorld 0 (.fresh "core" none) "first") =
        [.compiled (smallScript.classNameOf .body)
          ((small.key smallScript .body).metadataOf [⟨1, .println "x"⟩] smallWorld.now)] := by
  have hpre : smallScript.hasPreamble = false := by decide +kernel
  have hcompiled : (Job.run (small.refresh .steady smallScript .body).run
      (grownWorld smallWorld 0 (.fresh "core" none) "first")).1 = .ok true := by decide +kernel
  have hsteps : stepsOf .body Phase.body.hook (smallScript.sourceOf .body) =
      .ok [⟨1, .println "x"⟩] := by decide +kernel
  rw [attempts_of_not small .steady hpre, attempt, hcompiled, eventsOf, hsteps]
  rfl

/-- The theorem for a script that was compiled once: its body is the one event, and the one
entry. -/
theorem list_refines_small :
    let w := (Job.run (small.compileInChild .steady smallScript 0 "first").run smallWorld).2
    let name := smallScript.classNameOf .body
    let m := (small.key smallScript .body).metadataOf [⟨1, .println "x"⟩] smallWorld.now
    small.Chronicle ["c"] ["m"] [.compiled name m] w ∧
      Job.run small.list.run w =
        (.ok [⟨name, m, small.classesDir name, small.metadataDir name⟩], w) := by
  intro w name m
  have hsane : small.Sane ["c"] ["m"] {smallScript} smallWorld.files smallWorld :=
    fresh_smallWorld.sane
  have hroot : smallWorld.scopes.isLive 0 = true := rfl
  have hscope : smallWorld.scopes.scope? 0 = some _ := rfl
  obtain ⟨script, w', hrun⟩ := exists_compileInChild_small hsane hroot "first"
  have hchronicle : small.Chronicle ["c"] ["m"] [.compiled name m] w := by
    have hcompile := (Chronicle.start fresh_smallWorld).compileInChild .steady
      fitsIn_smallScript.lines hscope "first" fun err herr => by
        rw [hrun] at herr
        cases herr
    rwa [List.append_nil, attempts_small] at hcompile
  obtain ⟨entries, hlist, hsorted, hmem⟩ := (small.list_refines).1 _ _ _ _ hchronicle
  have hentries : entries = [⟨name, m, small.classesDir name, small.metadataDir name⟩] := by
    -- In strict order no entry stands twice, so the entries are those of the one event.
    have hnodup : entries.Nodup := hsorted.imp fun {a b} hlt he => by
      rw [he] at hlt
      exact String.lt_irrefl _ hlt
    refine List.perm_singleton.mp
      ((List.perm_ext_iff_of_nodup hnodup (List.nodup_singleton _)).mpr fun e => ?_)
    rw [hmem, recorded_cons, List.mem_singleton]
    obtain ⟨className, metadata, classesDir, metadataDir⟩ := e
    show (if decide (name = className) then some m else none) = some metadata ∧ _ ↔ _
    simp only [decide_eq_true_eq, Option.ite_none_right_eq_some, Option.some.injEq,
      CacheEntry.mk.injEq]
    constructor
    · rintro ⟨⟨rfl, rfl⟩, rfl, rfl⟩
      exact ⟨rfl, rfl, rfl, rfl⟩
    · rintro ⟨rfl, rfl, rfl, rfl⟩
      exact ⟨⟨rfl, rfl⟩, rfl, rfl⟩
  exact ⟨hchronicle, hentries ▸ hlist⟩

end Cache

end ScriptPlugins
