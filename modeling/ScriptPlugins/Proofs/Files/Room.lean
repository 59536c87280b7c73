import ScriptPlugins.Proofs.Files.Trees
import ScriptPlugins.Proofs.Text.Ascii

/-!
# Room — paths that stay short enough

Plain text has one byte for each character, and no character that a name may not have.  So a path
can be joined with plain names as long as there is room for them.
-/

namespace ScriptPlugins

/-! ## 1. Plain text -/

/-- Characters of ASCII that a name may have anywhere. -/
def isPlain (c : Char) : Bool := c.utf8Size = 1 ∧ c ≠ '/' ∧ c ≠ '\x00'

/-- A text of such characters. -/
def PlainText (s : String) : Prop := ∀ c ∈ s.toList, isPlain c = true

instance (s : String) : Decidable (PlainText s) :=
  decidable_of_iff (s.toList.all isPlain = true) List.all_eq_true

/-- What holds of the characters of ASCII one by one. -/
theorem of_ascii {P : Char → Prop} (h : ∀ n < 128, P (Char.ofNat n)) {c : Char}
    (hc : c.toNat < 128) : P c := by
  have hchar := h c.toNat hc
  rwa [Char.ofNat_toNat] at hchar

theorem lt_of_isAlphanum {c : Char} (h : c.isAlphanum = true) : c.toNat < 128 := by
  have hbelow {top : Char} (hc : c.val ≤ top.val) (htop : top.val.toNat < 128) : c.toNat < 128 :=
    Nat.lt_of_le_of_lt (UInt32.le_iff_toNat_le.mp hc) htop
  have hcases : (c.isUpper || c.isLower || c.isDigit) = true := h
  rw [Bool.or_eq_true, Bool.or_eq_true] at hcases
  rcases hcases with (hupper | hlower) | hdigit
  · have hrange : c.val ≥ 'A'.val ∧ c.val ≤ 'Z'.val := of_decide_eq_true hupper
    exact hbelow hrange.2 (by decide)
  · have hrange := (Bool.and_eq_true _ _).mp hlower
    exact hbelow (of_decide_eq_true hrange.2) (by decide)
  · have hrange := (Bool.and_eq_true _ _).mp hdigit
    exact hbelow (of_decide_eq_true hrange.2) (by decide)

theorem isPlain_of_isAlphanum {c : Char} (h : c.isAlphanum = true) :
    isPlain c = true ∧ isPlain c.toUpper = true := by
  exact of_ascii (P := fun c => c.isAlphanum = true →
    isPlain c = true ∧ isPlain c.toUpper = true) (by decide +kernel) (lt_of_isAlphanum h) h

namespace PlainText

variable {s t : String}

theorem append (hs : PlainText s) (ht : PlainText t) : PlainText (s ++ t) := by
  intro c hc
  rw [String.toList_append] at hc
  exact (List.mem_append.mp hc).elim (hs c) (ht c)

theorem no_slash (h : PlainText s) : '/' ∉ s.toList := fun hm => absurd (h _ hm) (by decide +kernel)

theorem no_nul (h : PlainText s) : '\x00' ∉ s.toList :=
  fun hm => absurd (h _ hm) (by decide +kernel)

theorem ascii (h : PlainText s) : Ascii s.toList := by
  intro c hc
  have hplain := h c hc
  simp only [isPlain, decide_eq_true_eq] at hplain
  exact hplain.1

/-- Plain text has one byte for each character. -/
theorem size (h : PlainText s) : s.utf8ByteSize = s.toList.length := by
  have hs := h.ascii.size
  rwa [String.ofList_toList] at hs

/-- Plain text that is not too short leads down. -/
theorem isPart (h : PlainText s) (hshort : 2 < s.toList.length) : IsPart s := by
  refine ⟨?_, h.no_slash, ?_, ?_⟩ <;>
    · rintro rfl
      revert hshort
      simp

/-- Plain text that is neither too short nor too long is a name. -/
theorem isName (h : PlainText s) (hshort : 2 < s.toList.length)
    (hlong : s.toList.length ≤ FileTree.nameLimit) : IsName s := by
  obtain ⟨hne, hslash, hhere, hup⟩ := h.isPart hshort
  exact ⟨hne, hslash, hhere, hup, h.size ▸ hlong⟩

end PlainText

/-! ## 2. Room in a path -/

namespace FileTree

/-- A path that some more characters can be put behind. -/
structure Room (p : Path) (n : Nat) : Prop where
  no_nul : '\x00' ∉ p.text.toList
  ne_empty : p.text ≠ ""
  size : p.text.utf8ByteSize + n ≤ pathLimit

variable {p : Path} {m n : Nat} {s : String}

theorem Room.fits (h : Room p n) : Fits p := by
  have hsize := h.size
  exact fits_iff.mpr ⟨h.no_nul, h.ne_empty, by omega⟩

/-- Joining with plain text takes the room for it and for a slash. -/
theorem Room.join (h : Room p n) (hs : PlainText s) (hn : s.toList.length + 1 + m ≤ n) :
    Room (p.join s) m := by
  have hsize := h.size
  have htext := Path.text_join hs.no_slash p
  have hslash : "/".utf8ByteSize = 1 := rfl
  split at htext
  · refine ⟨?_, ?_, ?_⟩ <;> rw [htext]
    · rw [String.toList_append, List.mem_append]
      exact not_or.mpr ⟨h.no_nul, hs.no_nul⟩
    · exact fun he => h.ne_empty (String.append_eq_empty_iff.mp he).1
    · rw [String.utf8ByteSize_append, hs.size]
      omega
  · refine ⟨?_, ?_, ?_⟩ <;> rw [htext]
    · rw [String.toList_append, String.toList_append, List.mem_append, List.mem_append]
      exact not_or.mpr ⟨not_or.mpr ⟨h.no_nul, by decide +kernel⟩, hs.no_nul⟩
    · exact fun he =>
        h.ne_empty (String.append_eq_empty_iff.mp (String.append_eq_empty_iff.mp he).1).1
    · rw [String.utf8ByteSize_append, String.utf8ByteSize_append, hs.size]
      omega

end FileTree

end ScriptPlugins
