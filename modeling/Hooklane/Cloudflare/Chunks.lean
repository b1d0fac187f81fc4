import Hooklane.Cloudflare.Contract
import Hooklane.Support.Utf8

/-!
# Cutting a payload into chunks

`payload_json_chunks` never raises: with room for one character the loop moves
from one character boundary to a later one, so every piece decodes, and the
pieces join to the text they were cut from.
-/

namespace Hooklane.Cloudflare

open Support

variable {text : String} {limit start stop : ℕ}

theorem isContinuation_iff {byte : UInt8} :
    isContinuation byte = true ↔ IsContinuation byte := by
  rw [isContinuation, IsContinuation, beq_iff_eq]

/-- The inner loop stops at the last position up to `stop` that continues no
character, but not before `start`. -/
theorem backUp_spec (encoded : ByteArray) (h : start ≤ stop) :
    start ≤ backUp encoded start stop ∧ backUp encoded start stop ≤ stop ∧
      (backUp encoded start stop ≠ start →
        ¬IsContinuation encoded[backUp encoded start stop]!) ∧
      ∀ i, backUp encoded start stop < i → i ≤ stop →
        IsContinuation encoded[i]! := by
  induction stop with
  | zero =>
      obtain rfl : start = 0 := by omega
      exact ⟨le_rfl, le_rfl, fun hne => absurd rfl hne, fun i _ _ => by omega⟩
  | succ stop ih =>
      rw [backUp]
      split
      · next hback =>
        obtain ⟨hlow, hhigh, hstop, hcont⟩ := ih (by omega)
        refine ⟨hlow, by omega, hstop, fun i hi hle => ?_⟩
        by_cases heq : i = stop + 1
        · rw [heq]
          exact isContinuation_iff.mp hback.2
        · exact hcont i hi (by omega)
      · next hkeep =>
        refine ⟨h, le_rfl, fun hne => ?_, fun i _ _ => by omega⟩
        have hlt : start < stop + 1 := by omega
        intro hcont
        exact hkeep ⟨hlt, isContinuation_iff.mpr hcont⟩

/-- A piece ends at a boundary past its start, within the limit. -/
theorem chunkEnd_spec (hlimit : 4 ≤ limit) (hstart : Boundary text start)
    (hlt : start < text.toUTF8.size) :
    start < chunkEnd limit text.toUTF8 start ∧
      chunkEnd limit text.toUTF8 start ≤ start + limit ∧
      Boundary text (chunkEnd limit text.toUTF8 start) := by
  rw [chunkEnd]
  split
  · next hcut =>
    have hcut' : start + limit < text.toUTF8.size := by omega
    rw [Nat.min_eq_left hcut'.le]
    obtain ⟨hlow, hhigh, hstop, hcont⟩ :=
      backUp_spec text.toUTF8 (Nat.le_add_right start limit)
    obtain ⟨next, hnext, hafter, hnear⟩ := hstart.next hlt
    have hpast : start < backUp text.toUTF8 start (start + limit) := by
      by_contra hno
      have hbyte : next < text.toUTF8.size := by omega
      have hinside := hcont next (by omega) (by omega)
      rw [getElem!_pos text.toUTF8 next hbyte] at hinside
      exact hnext.not_isContinuation hbyte hinside
    have hbyte : backUp text.toUTF8 start (start + limit) <
        text.toUTF8.size := by omega
    refine ⟨hpast, hhigh, boundary_of_not_isContinuation hbyte ?_⟩
    rw [← getElem!_pos text.toUTF8 _ hbyte]
    exact hstop (by omega)
  · next hend =>
    have hsize : min (start + limit) text.toUTF8.size = text.toUTF8.size := by
      omega
    rw [hsize]
    exact ⟨hlt, by omega, boundary_size⟩

/-- The pieces of a text from a boundary on. -/
structure CutFrom (limit : ℕ) (text : String) (start : ℕ)
    (chunks : List String) : Prop where
  nonempty : ∀ chunk ∈ chunks, chunk ≠ ""
  size_le : ∀ chunk ∈ chunks, chunk.toUTF8.size ≤ limit
  join : (String.join chunks).toUTF8 =
    text.toUTF8.extract start text.toUTF8.size

/-- The outer loop cuts the rest of the text whenever it has one round for
each byte left. -/
theorem chunksFrom_spec (hlimit : 4 ≤ limit) {rounds : ℕ}
    (hstart : Boundary text start)
    (hrounds : text.toUTF8.size ≤ start + rounds) :
    ∃ chunks, chunksFrom limit text.toUTF8 rounds start = some chunks ∧
      CutFrom limit text start chunks := by
  induction rounds generalizing start with
  | zero =>
      obtain rfl : start = text.toUTF8.size := by
        have := hstart.le
        omega
      refine ⟨[], by simp [chunksFrom], ?_⟩
      exact ⟨by simp, by simp, by simp⟩
  | succ rounds ih =>
      rw [chunksFrom]
      split
      · next hlt =>
        obtain ⟨hpast, hnear, hend⟩ := chunkEnd_spec hlimit hstart hlt
        generalize chunkEnd limit text.toUTF8 start = stop at hpast hnear hend ⊢
        obtain ⟨chunk, hchunk, hbytes⟩ := hstart.decode hend hpast.le
        obtain ⟨rest, hrest, hcut⟩ := ih hend (by omega)
        have hle := hend.le
        have hsize : chunk.toUTF8.size = stop - start := by
          rw [hbytes, ByteArray.size_extract]
          omega
        refine ⟨chunk :: rest, ?_, ?_⟩
        · rw [if_neg (by omega), hchunk, hrest]
          rfl
        · refine ⟨?_, ?_, ?_⟩
          · rw [List.forall_mem_cons]
            refine ⟨?_, hcut.nonempty⟩
            rintro rfl
            simp at hsize
            omega
          · rw [List.forall_mem_cons]
            exact ⟨by omega, hcut.size_le⟩
          · rw [String.join_cons]
            calc (chunk ++ String.join rest).toUTF8
                = chunk.toUTF8 ++ (String.join rest).toUTF8 :=
                  String.toByteArray_append ..
              _ = text.toUTF8.extract start stop ++
                    text.toUTF8.extract stop text.toUTF8.size := by
                  rw [hbytes, hcut.join]
              _ = text.toUTF8.extract start text.toUTF8.size :=
                  (ByteArray.extract_eq_extract_append_extract stop hpast.le
                    hle).symm
      · next hge =>
        obtain rfl : start = text.toUTF8.size := by
          have := hstart.le
          omega
        exact ⟨[], rfl, by simp, by simp, by simp⟩

/-- Cutting any payload succeeds: the pieces are nonempty texts of at most
`limit` bytes, and they join to the canonical JSON. -/
theorem payloadJsonChunks_cut (limit : ℕ) (hlimit : 4 ≤ limit)
    (event : EventRequest) :
    ∃ chunks, payloadJsonChunks limit event = some chunks ∧
      (∀ chunk ∈ chunks, chunk ≠ "" ∧ chunk.toUTF8.size ≤ limit) ∧
      String.join chunks = event.payloadJson := by
  obtain ⟨chunks, hchunks, hcut⟩ := chunksFrom_spec hlimit
    (boundary_zero : Boundary event.payloadJson 0) (Nat.le_add_left _ 0)
  refine ⟨chunks, hchunks, fun chunk hmem => ?_, ?_⟩
  · exact ⟨hcut.nonempty chunk hmem, hcut.size_le chunk hmem⟩
  · apply String.toByteArray_inj.mp
    have hjoin := hcut.join
    rwa [ByteArray.extract_zero_size] at hjoin

end Hooklane.Cloudflare
