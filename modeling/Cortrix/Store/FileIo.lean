import Cortrix.Lib.Bytes

/-!
# File writes that may fail

Both log writers put their bytes down with a loop over `pwrite`. A write that fails leaves the prefix it
had written in the file.
-/

namespace Cortrix.Store
open Lib

/-- A `pwrite` that fails after `bytes` more bytes; `error` is the text of `strerror`. -/
structure IoFault where
  bytes : Nat
  error : String

/-- Append the buffers one after another. With a fault the write stops once its bytes are used up, the
prefix staying in the file. -/
def appendAll (image : Bytes) : List Bytes → Option IoFault → Bytes × Option IoFault
  | [], _ => (image, none)
  | buf :: bufs, none => appendAll (image ++ buf) bufs none
  | buf :: bufs, some f =>
    if buf.length ≤ f.bytes then appendAll (image ++ buf) bufs (some { f with bytes := f.bytes - buf.length })
    else (image ++ buf.take f.bytes, some f)

theorem appendAll_none (image : Bytes) (bufs : List Bytes) :
    appendAll image bufs none = (image ++ bufs.flatten, none) := by
  induction bufs generalizing image with
  | nil => simp [appendAll]
  | cons buf bufs ih => rw [appendAll, ih, List.flatten_cons, List.append_assoc]

/-- An append that reports no failure wrote everything; one that does wrote a proper prefix. -/
theorem appendAll_cases (image : Bytes) (bufs : List Bytes) (fault : Option IoFault) :
    (appendAll image bufs fault).2 = none ∧ (appendAll image bufs fault).1 = image ++ bufs.flatten ∨
      ∃ f n, (appendAll image bufs fault).2 = some f ∧ n < bufs.flatten.length ∧
        (appendAll image bufs fault).1 = image ++ bufs.flatten.take n := by
  cases fault with
  | none => exact Or.inl (by rw [appendAll_none]; exact ⟨rfl, rfl⟩)
  | some f =>
    induction bufs generalizing image f with
    | nil => exact Or.inl (by simp [appendAll])
    | cons buf bufs ih =>
      rw [appendAll]
      split
      · rename_i hle
        rcases ih (image ++ buf) { f with bytes := f.bytes - buf.length } with ⟨h2, h1⟩ | ⟨g, n, h2, hn, h1⟩
        · exact Or.inl ⟨h2, by rw [h1, List.flatten_cons, List.append_assoc]⟩
        · refine Or.inr ⟨g, buf.length + n, h2, ?_, ?_⟩
          · rw [List.flatten_cons, List.length_append]
            omega
          · rw [h1, List.flatten_cons, List.take_length_add_append, List.append_assoc]
      · rename_i hle
        refine Or.inr ⟨f, f.bytes, rfl, ?_, ?_⟩
        · rw [List.flatten_cons, List.length_append]
          omega
        · rw [List.flatten_cons, List.take_append_of_le_length (by omega)]

theorem appendAll_eq_none {image : Bytes} {bufs : List Bytes} {fault : Option IoFault} :
    (appendAll image bufs fault).2 = none ↔ ∀ f ∈ fault, bufs.flatten.length ≤ f.bytes := by
  cases fault with
  | none => simp [appendAll_none]
  | some f =>
    simp only [Option.mem_def, Option.some.injEq, forall_eq']
    induction bufs generalizing image f with
    | nil => simp [appendAll]
    | cons buf bufs ih =>
      rw [appendAll]
      split
      · rw [ih, List.flatten_cons, List.length_append]
        simp only
        omega
      · rw [List.flatten_cons, List.length_append]
        simp only [reduceCtorEq, false_iff]
        omega

/-- Overwrite the start of the file with one buffer. -/
def overwrite (image buf : Bytes) : Option IoFault → Bytes × Option IoFault
  | none => (buf ++ image.drop buf.length, none)
  | some f =>
    if buf.length ≤ f.bytes then (buf ++ image.drop buf.length, none)
    else (buf.take f.bytes ++ image.drop f.bytes, some f)

theorem overwrite_header {hdr buf : Bytes} (rest : Bytes) (hlen : buf.length = hdr.length) (fault : Option IoFault) :
    ∃ n ≤ hdr.length, (overwrite (hdr ++ rest) buf fault).1 = (buf.take n ++ hdr.drop n) ++ rest := by
  have hfull : buf ++ (hdr ++ rest).drop buf.length = (buf.take hdr.length ++ hdr.drop hdr.length) ++ rest := by
    rw [hlen, List.drop_left, List.drop_length, List.append_nil, List.take_of_length_le (by omega)]
  unfold overwrite
  split
  · exact ⟨hdr.length, le_refl _, hfull⟩
  · split
    · exact ⟨hdr.length, le_refl _, hfull⟩
    · rename_i f hle
      refine ⟨f.bytes, by omega, ?_⟩
      rw [List.drop_append_of_le_length (by omega), List.append_assoc]

end Cortrix.Store
