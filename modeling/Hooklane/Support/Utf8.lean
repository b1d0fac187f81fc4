import Mathlib.Data.Nat.Notation
import Mathlib.Data.List.AList

/-!
# Character boundaries of UTF-8 texts

Where the encoding of a text may be cut.  A byte position of a text is a
boundary exactly when the byte there does not continue a character, boundaries
are at most four bytes apart, and the bytes between two boundaries are a text
again.
-/

namespace Support

open String

/-- The byte is not the first one of its character. -/
def IsContinuation (byte : UInt8) : Prop :=
  byte &&& 0b11000000 = 0b10000000

instance (byte : UInt8) : Decidable (IsContinuation byte) :=
  inferInstanceAs (Decidable (_ = _))

/-- What holds of all 256 bytes holds of every byte. -/
theorem forall_byte {P : UInt8 → Prop}
    (h : ∀ n : Fin 256, P (UInt8.ofFin n)) (byte : UInt8) : P byte :=
  h byte.toFin

theorem not_isContinuation_of_first {byte : UInt8}
    (h : byte.IsUTF8FirstByte) : ¬IsContinuation byte := by
  revert h
  exact forall_byte (P := fun b => b.IsUTF8FirstByte → ¬IsContinuation b)
    (by decide +kernel) byte

theorem isContinuation_tail (bits : UInt8) :
    IsContinuation (bits &&& 0x3f ||| 0x80) :=
  forall_byte (P := fun b => IsContinuation (b &&& 0x3f ||| 0x80))
    (by decide +kernel) bits

/-- After the first byte of a character come continuation bytes only. -/
theorem isContinuation_of_mem_encode {c : Char} {byte : UInt8}
    (h : byte ∈ (String.utf8EncodeChar c).tail) : IsContinuation byte := by
  have hpos : 0 < c.utf8Size := c.utf8Size_pos
  have hle : c.utf8Size ≤ 4 := c.utf8Size_le_four
  obtain h1 | h2 | h3 | h4 : c.utf8Size = 1 ∨ c.utf8Size = 2 ∨
      c.utf8Size = 3 ∨ c.utf8Size = 4 := by omega
  · rw [utf8EncodeChar_eq_singleton h1] at h
    cases h
  · rw [utf8EncodeChar_eq_cons_cons h2, List.tail_cons,
      List.mem_singleton] at h
    subst byte
    exact isContinuation_tail _
  · rw [utf8EncodeChar_eq_cons_cons_cons h3, List.tail_cons, List.mem_pair]
      at h
    rcases h with rfl | rfl <;> exact isContinuation_tail _
  · rw [utf8EncodeChar_eq_cons_cons_cons_cons h4, List.tail_cons] at h
    simp only [List.mem_cons, List.not_mem_nil, or_false] at h
    rcases h with rfl | rfl | rfl <;> exact isContinuation_tail _

/-- A character begins at byte `n` of the text, or the text ends there. -/
def Boundary (text : String) (n : ℕ) : Prop :=
  (⟨n⟩ : Pos.Raw).IsValid text

variable {text : String} {m n : ℕ}

theorem boundary_iff_append :
    Boundary text n ↔ ∃ front rest : String,
      text = front ++ rest ∧ n = front.toUTF8.size := by
  rw [Boundary, Pos.Raw.isValid_iff_exists_append]
  simp [Pos.Raw.ext_iff]

theorem boundary_zero : Boundary text 0 :=
  boundary_iff_append.mpr ⟨"", text, by simp⟩

theorem Boundary.le (h : Boundary text n) : n ≤ text.toUTF8.size := by
  obtain ⟨front, rest, rfl, rfl⟩ := boundary_iff_append.mp h
  simp

theorem boundary_size : Boundary text text.toUTF8.size :=
  boundary_iff_append.mpr ⟨text, "", by simp⟩

/-- From a boundary before the end, the next one is at most four bytes
away. -/
theorem Boundary.next (h : Boundary text n) (hn : n < text.toUTF8.size) :
    ∃ m, Boundary text m ∧ n < m ∧ m ≤ n + 4 := by
  obtain ⟨front, rest, rfl, rfl⟩ := boundary_iff_append.mp h
  obtain ⟨cs, rfl⟩ := rest.exists_eq_ofList
  cases cs with
  | nil => simp at hn
  | cons c cs =>
      refine ⟨(front ++ String.singleton c).toUTF8.size, ?_, ?_, ?_⟩
      · refine boundary_iff_append.mpr
          ⟨front ++ String.singleton c, String.ofList cs, ?_, rfl⟩
        rw [String.append_assoc]
        congr 1
        apply String.toList_inj.mp
        simp
      · have := c.utf8Size_pos
        simpa [List.utf8Encode] using this
      · have := c.utf8Size_le_four
        simpa [List.utf8Encode] using this

theorem Boundary.append_left (h : Boundary text n) (front : String) :
    Boundary (front ++ text) (front.toUTF8.size + n) := by
  obtain ⟨s, rest, rfl, rfl⟩ := boundary_iff_append.mp h
  refine boundary_iff_append.mpr ⟨front ++ s, rest, ?_, by simp⟩
  rw [String.append_assoc]

theorem byte_append_left {front : String}
    (h : n < (front ++ text).toUTF8.size) (h' : n < front.toUTF8.size) :
    (front ++ text).toUTF8[n] = front.toUTF8[n] := by
  simp only [toUTF8_eq_toByteArray, toByteArray_append]
  exact ByteArray.getElem_append_left h'

theorem byte_append_right {front : String}
    (h : front.toUTF8.size + n < (front ++ text).toUTF8.size)
    (h' : n < text.toUTF8.size) :
    (front ++ text).toUTF8[front.toUTF8.size + n] = text.toUTF8[n] := by
  simp only [toUTF8_eq_toByteArray, toByteArray_append]
  rw [ByteArray.getElem_append_right (by simp)]
  simp

/-- Inside a character every byte but the first continues it. -/
theorem isContinuation_inside {c : Char}
    (hn : n < (String.singleton c).toUTF8.size) (hpos : 0 < n) :
    IsContinuation (String.singleton c).toUTF8[n] := by
  apply isContinuation_of_mem_encode (c := c)
  have hlength : n < (String.utf8EncodeChar c).length := by
    simpa [List.utf8Encode] using hn
  have hbyte : (String.singleton c).toUTF8[n] =
      (String.utf8EncodeChar c)[n] := by
    simp [List.utf8Encode, List.getElem_toByteArray]
  rw [hbyte]
  obtain ⟨k, rfl⟩ : ∃ k, n = k + 1 := ⟨n - 1, by omega⟩
  have hk : k < (String.utf8EncodeChar c).tail.length := by
    simp [List.utf8Encode] at hn ⊢
    omega
  rw [← List.getElem_tail hk]
  exact List.getElem_mem hk

/-- A byte of a text that continues no character begins one. -/
theorem boundary_of_not_isContinuation (hn : n < text.toUTF8.size)
    (h : ¬IsContinuation text.toUTF8[n]) : Boundary text n := by
  obtain ⟨cs, rfl⟩ := text.exists_eq_ofList
  induction cs generalizing n with
  | nil => simp at hn
  | cons c cs ih =>
      have hsplit : String.ofList (c :: cs) =
          String.singleton c ++ String.ofList cs := by
        apply String.toList_inj.mp
        simp
      rcases Nat.eq_zero_or_pos n with rfl | hpos
      · exact boundary_zero
      · rw [hsplit] at hn
        simp only [hsplit] at h ⊢
        by_cases hlt : n < (String.singleton c).toUTF8.size
        · rw [byte_append_left hn hlt] at h
          exact absurd (isContinuation_inside hlt hpos) h
        · obtain ⟨k, rfl⟩ : ∃ k, n = (String.singleton c).toUTF8.size + k :=
            ⟨n - (String.singleton c).toUTF8.size, by omega⟩
          have hk : k < (String.ofList cs).toUTF8.size := by
            simp only [toUTF8_eq_toByteArray, toByteArray_append,
              ByteArray.size_append] at hn ⊢
            omega
          rw [byte_append_right hn hk] at h
          exact (ih hk h).append_left _

theorem Boundary.not_isContinuation (h : Boundary text n)
    (hn : n < text.toUTF8.size) : ¬IsContinuation text.toUTF8[n] := by
  rw [Boundary, Pos.Raw.isValid_iff_isUTF8FirstByte] at h
  rcases h with h | ⟨_, hfirst⟩
  · have := congrArg Pos.Raw.byteIdx h
    simp at this hn
    omega
  · exact not_isContinuation_of_first hfirst

/-- The bytes between two boundaries decode to a text. -/
theorem Boundary.decode (hm : Boundary text m) (hn : Boundary text n)
    (hle : m ≤ n) :
    ∃ piece, String.fromUTF8? (text.toUTF8.extract m n) = some piece ∧
      piece.toUTF8 = text.toUTF8.extract m n := by
  have hvalid : (text.toUTF8.extract m n).IsValidUTF8 :=
    (Pos.Raw.isValidUTF8_extract_iff ⟨m⟩ ⟨n⟩ hle hn.le_rawEndPos).mpr
      (.inr ⟨hm, hn⟩)
  exact ⟨String.fromUTF8 _ hvalid, by rw [String.fromUTF8?, dif_pos hvalid], rfl⟩

end Support
