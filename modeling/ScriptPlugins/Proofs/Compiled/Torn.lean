import ScriptPlugins.Digest.Sha256
import ScriptPlugins.Proofs.Compiled.Metadata
import ScriptPlugins.Proofs.Json.Prefixes
import ScriptPlugins.Proofs.Text.Ascii

/-!
# Torn metadata — a part of a metadata file is text that says nothing

Metadata is written in ASCII, so a file that was written only in part is still text.  The text is
that of an object, of which no part is read.
-/

namespace ScriptPlugins

namespace Ascii

variable {s : String}

theorem escape {c : Char} (h : c.utf8Size = 1) : Ascii (Json.escape c) := by
  have hpair (d : Char) (hd : d.utf8Size = 1) : Ascii ['\\', d] := .cons rfl (.cons hd .nil)
  rw [Json.escape]
  split
  · exact hpair '"' rfl
  split
  · exact hpair '\\' rfl
  split
  · exact hpair 'n' rfl
  split
  · exact hpair 'r' rfl
  split
  · exact hpair 't' rfl
  split
  · exact hpair 'b' rfl
  split
  · exact hpair 'f' rfl
  split
  · exact .cons rfl (.cons rfl (hexPadded 4 _))
  · exact .cons h .nil

theorem quote (h : Ascii s.toList) : Ascii (Json.quote s) := by
  refine .cons rfl (.append (fun c hc => ?_) (.cons rfl .nil))
  obtain ⟨d, hd, hc⟩ := List.mem_flatMap.mp hc
  exact escape (h d hd) c hc

theorem newLine (level : Nat) : Ascii (Json.newLine level) :=
  .cons rfl fun c hc => by
    rw [List.eq_of_mem_replicate hc]
    rfl

theorem layOutMembers {ms : List (String × Json)}
    (h : ∀ m ∈ ms, Ascii m.1.toList ∧ ∀ level, Ascii (m.2.layOut level)) (level : Nat) :
    Ascii (Json.layOutMembers level ms) := by
  induction ms with
  | nil => exact .nil
  | cons m ms ih =>
    obtain ⟨hkey, hvalue⟩ := h m List.mem_cons_self
    have hmember : Ascii (Json.quote m.1 ++ ':' :: ' ' :: m.2.layOut level) :=
      (quote hkey).append (.cons rfl (.cons rfl (hvalue level)))
    cases ms with
    | nil => exact hmember
    | cons m' ms =>
      rw [Json.layOutMembers_cons]
      exact (hmember.append (.cons rfl (newLine level))).append
        (ih fun m hm => h m (List.mem_cons_of_mem _ hm))

/-- An object is written in ASCII if its keys and values are. -/
theorem object {ms : List (String × Json)}
    (h : ∀ m ∈ ms, Ascii m.1.toList ∧ ∀ level, Ascii (m.2.layOut level)) (level : Nat) :
    Ascii ((Json.object ms).layOut level) := by
  cases ms with
  | nil => exact .cons rfl (.cons rfl .nil)
  | cons m ms =>
    have hopen : Ascii ('{' :: Json.newLine (level + 1)) := .cons rfl (newLine _)
    exact ((hopen.append (layOutMembers h _)).append (newLine level)).append (.cons rfl .nil)

theorem text (h : Ascii s.toList) (level : Nat) : Ascii ((Json.text s).layOut level) := quote h

theorem bool (b : Bool) (level : Nat) : Ascii ((Json.bool b).layOut level) := by
  have hwords : Ascii "true".toList ∧ Ascii "false".toList := by decide +kernel
  cases b
  · exact hwords.2
  · exact hwords.1

theorem ofNat (n level : Nat) : Ascii ((Json.ofNat n).layOut level) := by
  rw [Json.ofNat, Json.layOut, String.toList_ofList]
  exact decimal n

/-! ## 1. What metadata is written with -/

theorem digestText (s : String) : Ascii (Sha256.digestText s).toList := by
  rw [Sha256.digestText, Sha256.digest, String.toList_ofList]
  intro c hc
  obtain ⟨w, -, hc⟩ := List.mem_flatMap.mp hc
  exact hexPadded 8 _ c hc

theorem write (t : Instant) : Ascii t.write.toList := by
  have hyear : Ascii (Instant.writeYear t.year) := by
    rw [Instant.writeYear]
    split
    · exact padded _ _
    split
    · exact .cons rfl (padded _ _)
    · exact .cons rfl (padded _ _)
  have hnanos : Ascii (Instant.writeNanos t.nanos) := by
    rw [Instant.writeNanos]
    split
    · exact .nil
    split
    · exact .cons rfl (padded _ _)
    split
    · exact .cons rfl (padded _ _)
    · exact .cons rfl (padded _ _)
  have hdate : Ascii t.writeDate :=
    (hyear.append (.cons rfl (padded _ _))).append (.cons rfl (padded _ _))
  have htime : Ascii t.writeTime :=
    ((padded _ _).append (.cons rfl (padded _ _))).append (.cons rfl (padded _ _))
  rw [Instant.write, String.toList_ofList]
  exact ((hdate.append (.cons rfl htime)).append hnanos).append (.cons rfl .nil)

end Ascii

/-! ## 2. Metadata -/

namespace Metadata

variable {m : Metadata}

theorem ascii_print (hname : Ascii m.className.toList) (hhash : Ascii m.contentHash.toList) :
    Ascii m.print.toList := by
  have hkeys : ∀ key ∈ ["version", "class_name", "content_hash", "phase", "target_kind",
      "run_does_something", "has_methods", "data", "created_at", "type",
      "has_imperative_statements"], Ascii key.toList := by decide +kernel
  have hkind : Ascii m.kind.name.toList := by cases m.kind <;> decide +kernel
  have hphase : Ascii m.phase.name.toList := by cases m.phase <;> decide +kernel
  have hnotes (level : Nat) : Ascii (m.notes.toJson.layOut level) := by
    have hwords : Ascii "none".toList ∧ Ascii "build-script".toList := by decide +kernel
    cases m.notes with
    | none =>
      refine .object (List.forall_mem_singleton.mpr ⟨hkeys _ (by simp), .text hwords.1⟩) level
    | buildScript b =>
      refine .object (List.forall_mem_cons.mpr ⟨⟨hkeys _ (by simp), .text hwords.2⟩, ?_⟩) level
      exact List.forall_mem_singleton.mpr ⟨hkeys _ (by simp), .bool b⟩
  rw [print, Json.printLaidOut, String.toList_ofList, toJson]
  refine .object ?_ 0
  simp only [List.forall_mem_cons]
  exact ⟨⟨hkeys _ (by simp), .ofNat _⟩, ⟨hkeys _ (by simp), .text hname⟩,
    ⟨hkeys _ (by simp), .text hhash⟩, ⟨hkeys _ (by simp), .text hphase⟩,
    ⟨hkeys _ (by simp), .text hkind⟩, ⟨hkeys _ (by simp), .bool _⟩, ⟨hkeys _ (by simp), .bool _⟩,
    ⟨hkeys _ (by simp), hnotes⟩, ⟨hkeys _ (by simp), .text (.write _)⟩,
    fun _ h => absurd h List.not_mem_nil⟩

/-- **Torn metadata is text that says nothing.** -/
theorem exists_text_of_torn (hname : Ascii m.className.toList) (hhash : Ascii m.contentHash.toList)
    {k : Nat} (hk : k < m.print.toUTF8.size) :
    ∃ text, m.print.toUTF8.extract 0 k = text.toUTF8 ∧ read text = none := by
  have hascii := ascii_print hname hhash
  have hsize : m.print.toUTF8.size = m.print.toList.length := by
    have h := hascii.size
    rwa [String.ofList_toList] at h
  rw [hsize] at hk
  have hextract := hascii.extract_toUTF8 hk.le
  rw [String.ofList_toList] at hextract
  refine ⟨_, hextract, ?_⟩
  have hobject : m.print.toList = m.toJson.layOut 0 := String.toList_ofList
  rw [hobject] at hk ⊢
  have hnone : Json.read (String.ofList ((m.toJson.layOut 0).take k)) = none :=
    Json.read_take_layOut m.plain_toJson hk
  rw [read, hnone]
  rfl

end Metadata

end ScriptPlugins
