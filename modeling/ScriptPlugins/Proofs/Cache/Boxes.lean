import ScriptPlugins.Proofs.Files.Contents

/-!
# Boxes — directories that hold one file, or nothing

An entry of the cache is kept in two of them.  A box may be missing; what else stood below it would
be foreign.
-/

namespace ScriptPlugins

/-- A directory that holds one file or nothing, or no directory. -/
abbrev Box := Option (Option ByteArray)

/-- What stands at the names from a box on, if its file has some name. -/
def Box.entry? (f : String) (b : Box) : Location → Option Entry
  | [] => b.map fun _ => .directory
  | [s] => if s = f then b.join.map .file else none
  | _ :: _ :: _ => none

@[simp] theorem Box.entry?_missing (f : String) : ∀ r, Box.entry? f none r = none
  | [] | _ :: _ :: _ => rfl
  | [_] => ite_self none

theorem Box.entry?_empty (f s : String) : ∀ r, Box.entry? f (some none) (s :: r) = none
  | [] => ite_self none
  | _ :: _ => rfl

theorem Box.entry?_of_ne {f : String} {r : Location} (hr : r ≠ [f]) (o o' : Option ByteArray) :
    Box.entry? f (some o) r = Box.entry? f (some o') r :=
  match r, hr with
  | [], _ | _ :: _ :: _, _ => rfl
  | [s], hr =>
    have hs : s ≠ f := fun he => hr (he ▸ rfl)
    (if_neg hs).trans (if_neg hs).symm

namespace FileTree

/-- A box at a location, with nothing else at it or below it. -/
def Stores (t : FileTree) (l : Location) (f : String) (b : Box) : Prop :=
  ∀ r, t.entry? (l ++ r) = b.entry? f r

/-- A location and everything below it. -/
def subtree (l : Location) : Set Location := {m | l <+: m}

variable {S : Set Location} {t t' : FileTree} {p : Path} {l : Location} {s f : String} {b : Box}

namespace Stores

theorem same (h : t.Stores l f b) (hs : ∀ r, t'.entry? (l ++ r) = t.entry? (l ++ r)) :
    t'.Stores l f b := fun r => (hs r).trans (h r)

theorem directory {o : Option ByteArray} (h : t.Stores l f (some o)) :
    t.entry? l = some .directory := by
  have h₁ := h []
  rwa [List.append_nil] at h₁

theorem missing (h : t.Stores l f none) : t.entry? l = none := by
  have h₁ := h []
  rwa [List.append_nil] at h₁

theorem content {bytes : ByteArray} (h : t.Stores l f (some (some bytes))) :
    t.entry? (l ++ [f]) = some (.file bytes) := (h [f]).trans (if_pos rfl)

theorem empty (h : t.Stores l f (some none)) (r : Location) (s : String) :
    t.entry? (l ++ s :: r) = none := (h (s :: r)).trans (Box.entry?_empty f s r)

end Stores

theorem mem_between_one {l m : Location} {s : String} : m ∈ between l [s] ↔ m = l ++ [s] := by
  rw [show [s] = [] ++ [s] from rfl, mem_between_concat, between_nil, List.append_nil]
  exact or_iff_left (Set.notMem_empty m)

theorem subtree_subset_inside (l : Location) (s : String) : subtree (l ++ [s]) ⊆ inside l := by
  rintro m ⟨r, rfl⟩
  rw [List.append_assoc]
  exact mem_inside (by simp)

/-! ## 1. Changes -/

/-- A box can be removed, or is not there. -/
theorem Stores.removeDirectory (hp : Standing S t p l) (hs : IsName s) (hfit : Fits (p.join s))
    (h : t.Stores (l ++ [s]) f b) :
    ∃ reply t', t.removeDirectory (p.join s) = (reply, t') ∧
      (reply = .ok () ∨ reply = .error .notFound) ∧
      SameOutside (subtree (l ++ [s])) t t' ∧ t'.Stores (l ++ [s]) f none := by
  have hn : ∀ s' ∈ [s], IsName s' := by simpa using hs
  cases b with
  | none =>
    have hm : ∀ m ∈ between l [s], t.entry? m = none := fun m hm => by
      rw [mem_between_one.mp hm, h.missing]
    have hgone : t.removeDirectory (p.down [s]) = (.error .notFound, t) :=
      removeDirectory_missing hp hn (by simp) hfit (fun m hb => .inl (hm m hb))
        ⟨l ++ [s], mem_between_one.mpr rfl, h.missing⟩
    exact ⟨_, t, hgone, .inr rfl, .refl _ t, h⟩
  | some o =>
    obtain ⟨t', ht', hr⟩ :=
      removeDirectory_there hp hn (by simp) hfit (way_one t l s) h.directory
    exact ⟨.ok (), t', ht', .inl rfl, ⟨hr.here, fun k hk => hr.others k hk⟩,
      fun r => (hr.gone r).trans (Box.entry?_missing f r).symm⟩

/-- A box can be made; one that is there stays as it is. -/
theorem Stores.makeDirectories (hp : Standing S t p l) (hs : IsName s) (hfit : Fits (p.join s))
    (h : t.Stores (l ++ [s]) f b) :
    ∃ t', t.makeDirectories (p.join s) = (.ok (), t') ∧
      SameOutside (subtree (l ++ [s])) t t' ∧ t'.Stores (l ++ [s]) f (some b.join) := by
  have hn : ∀ s' ∈ [s], IsName s' := by simpa using hs
  cases b with
  | some o =>
    have hthere : t.makeDirectories (p.down [s]) = (.ok (), t) :=
      makeDirectories_there hfit.text_ne (place_down hp hn hfit (way_one t l s))
        (locate_down hp hn (by simp) hfit (way_one t l s)) h.directory
    exact ⟨t, hthere, .refl _ t, h⟩
  | none =>
    obtain ⟨t', ht', hmade⟩ := makeDirectories_down hp hn (by simp) hfit fun m hm => by
      rw [mem_between_one.mp hm]
      exact .inl h.missing
    refine ⟨t', ht', ⟨hmade.here, fun k hk => hmade.others k fun hb => hk ?_⟩, fun r => ?_⟩
    · rw [mem_between_one.mp hb]
      exact List.prefix_refl _
    · cases r with
      | nil =>
        rw [List.append_nil, hmade.made _ (mem_between_one.mpr rfl)]
        rfl
      | cons s' r =>
        rw [hmade.others _ fun hb => absurd (mem_between_one.mp hb) (by simp)]
        rw [h (s' :: r), Box.entry?_missing]
        exact (Box.entry?_empty f s' r).symm

/-- The file of a box that is there can be written. -/
theorem Stores.writeFile (hp : Standing S t p l) (hs : IsName s) (hf : IsName f)
    (hfit : Fits ((p.join s).join f)) {o : Option ByteArray} (h : t.Stores (l ++ [s]) f (some o))
    (bytes : ByteArray) :
    ∃ t', t.writeFile ((p.join s).join f) bytes = .ok t' ∧
      SameOutside (subtree (l ++ [s])) t t' ∧ t'.Stores (l ++ [s]) f (some (some bytes)) := by
  have hn : ∀ s' ∈ [s, f], IsName s' := by simp [hs, hf]
  have hnone : t.entry? (l ++ [s, f]) ≠ some .directory := by
    have hcons : l ++ [s, f] = l ++ [s] ++ [f] := by simp
    rw [hcons, h [f]]
    rw [Box.entry?, if_pos rfl]
    cases o <;> simp
  have hwrite := writeFile_down hp hn (by simp) hfit (way_two h.directory f) hnone bytes
  refine ⟨_, hwrite, ⟨rfl, fun k hk => entry?_put_of_ne t (by simp) _ ?_⟩, fun r => ?_⟩
  · rintro rfl
    exact hk ⟨[f], by simp⟩
  · rw [entry?_put t (by simp)]
    have heq : l ++ [s] ++ r = l ++ [s, f] ↔ r = [f] := by
      rw [show l ++ [s, f] = l ++ [s] ++ [f] by simp, List.append_cancel_left_eq]
    simp only [heq]
    split
    next hr => rw [hr]; exact (if_pos rfl).symm
    next hr =>
      rw [h r]
      exact Box.entry?_of_ne hr o (some bytes)

/-! ## 2. Looking -/

theorem Stores.locate (hp : Standing S t p l) (hs : IsName s) (hf : IsName f)
    (hfit : Fits ((p.join s).join f)) {o : Option ByteArray}
    (h : t.Stores (l ++ [s]) f (some o)) : t.locate ((p.join s).join f) = .ok (l ++ [s, f]) :=
  show t.locate (p.down [s, f]) = _ from
    locate_down hp (by simp [hs, hf]) (by simp) hfit (way_two h.directory f)

theorem Stores.not_isThere (hp : Standing S t p l) (hs : IsName s) (hf : IsName f)
    (hfit : Fits ((p.join s).join f)) (h : t.Stores (l ++ [s]) f none) :
    t.isThere ((p.join s).join f) = false := by
  have hdown : ∀ m ∈ between l [s, f], t.entry? m = none := by
    intro m hm
    rcases mem_between_concat.mp (show m ∈ between l ([s] ++ [f]) from hm) with rfl | hm
    · exact (h [f]).trans (Box.entry?_missing f [f])
    · rw [mem_between_one.mp hm, h.missing]
  have hnowhere : t.locate (p.down [s, f]) = .error .notFound :=
    locate_down_missing hp (by simp [hs, hf]) (by simp) hfit (fun m hm => .inl (hdown m hm))
      ⟨l ++ [s], mem_between_concat.mpr (.inr (mem_between_one.mpr rfl)), by simp, h.missing⟩
  exact not_isThere_of_look (look_nowhere hnowhere)

theorem Stores.look (hp : Standing S t p l) (hs : IsName s) (hf : IsName f)
    (hfit : Fits ((p.join s).join f)) {bytes : ByteArray}
    (h : t.Stores (l ++ [s]) f (some (some bytes))) :
    t.look ((p.join s).join f) = .ok (.file bytes) := by
  refine look_of_locate (h.locate hp hs hf hfit) ?_
  rw [show l ++ [s, f] = l ++ [s] ++ [f] by simp, h.content]

/-- The file of a box is there if the box holds one. -/
theorem Stores.isThere (hp : Standing S t p l) (hs : IsName s) (hf : IsName f)
    (hfit : Fits ((p.join s).join f)) (h : t.Stores (l ++ [s]) f b) :
    t.isThere ((p.join s).join f) = b.join.isSome := by
  match b, h with
  | none, h => exact h.not_isThere hp hs hf hfit
  | some none, h =>
    have hnone : t.entry? (l ++ [s, f]) = none := by
      rw [show l ++ [s, f] = l ++ [s] ++ [f] by simp, h.empty]
    exact not_isThere_of_look (look_missing (h.locate hp hs hf hfit) hnone)
  | some (some bytes), h => exact isThere_of_look (h.look hp hs hf hfit)

theorem Stores.readText (hp : Standing S t p l) (hs : IsName s) (hf : IsName f)
    (hfit : Fits ((p.join s).join f)) {text : String}
    (h : t.Stores (l ++ [s]) f (some (some text.toUTF8))) :
    t.readText ((p.join s).join f) = .ok text := readText_of_look (h.look hp hs hf hfit)

/-- The file of a box is all that stands in it. -/
theorem Stores.list (hp : Standing S t p l) (hs : IsName s) (hfit : Fits (p.join s))
    {bytes : ByteArray} (h : t.Stores (l ++ [s]) f (some (some bytes))) :
    t.list (p.join s) = .ok [(f, .file bytes)] := by
  have hl : t.locate (p.down [s]) = .ok (l ++ [s]) :=
    locate_down hp (by simpa using hs) (by simp) hfit (way_one t l s)
  rw [show p.join s = p.down [s] from rfl, list_of_locate hl h.directory]
  have hnodup := nodup_children t (l ++ [s])
  have hall : ∀ x ∈ t.children (l ++ [s]), x = (f, Entry.file bytes) := by
    rintro ⟨s', e⟩ hx
    rw [mem_children, h [s']] at hx
    change (if s' = f then some (Entry.file bytes) else none) = some e at hx
    split at hx
    next he => cases hx; rw [he]
    next => cases hx
  have hmem : (f, Entry.file bytes) ∈ t.children (l ++ [s]) := mem_children.mpr h.content
  -- One name stands there, and it stands there once.
  have hone : t.children (l ++ [s]) = [(f, .file bytes)] := by
    match hc : t.children (l ++ [s]) with
    | [] => rw [hc] at hmem; cases hmem
    | [x] => rw [hall x (by rw [hc]; simp)]
    | x :: y :: rest =>
      rw [hc, hall x (by rw [hc]; simp), hall y (by rw [hc]; simp)] at hnodup
      simp at hnodup
  rw [hone]
  rfl

end FileTree

end ScriptPlugins
