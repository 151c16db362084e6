import Mathlib.Data.List.Dedup
import Cortrix.Store.PendingEntry

/-!
# The stores behind a transaction, and its cleanup

What a transaction writes between `BeginWrite` and `Commit`: block rows, vector points, parents and the
document's full-text row. Contextual points sit under labels of their own, tied to a block by a label row.

* `cleanup_keeps`, `cleanup_drops` : exactly the covered rows go; `Shrunk` : cleanups only take away.
-/

namespace Cortrix.Store
open Lib

inductive Row
  | block (id : UInt64)
  | point (label : UInt64)
  | parent (parentId docId : Bytes)
  | docFts (docId : Bytes)
  deriving DecidableEq

structure Stores where
  rows : Row → Bool
  /-- `contextual_vec_labels`: the block a contextual point belongs to. -/
  labels : UInt64 → Option UInt64
  blobs : Bytes → Bool
  /-- The number of parameters a statement may have. -/
  maxVariables : Nat := 32766

namespace Stores

/-- A text bound by `c_str` ends at its first zero byte. -/
def cStr (s : Bytes) : Bytes := s.takeWhile (· != 0)

/-- `BlockExists`: the rows of the list, counted once each, are as many as the list is long. -/
def blockExists (st : Stores) (ids : List UInt64) : Bool :=
  if ids.isEmpty then true
  else decide (ids.length ≤ st.maxVariables) && (ids.dedup.filter fun b => st.rows (.block b)).length == ids.length

/-- `AllStoresHave`: the blob when one was declared, every block row and every point. -/
def allStoresHave (st : Stores) (pending : PendingEntry) : Bool :=
  if pending.hasBlob && !st.blobs pending.docId then false
  else if !pending.blockIds.isEmpty && !st.blockExists pending.blockIds then false
  else pending.blockIds.all fun b => st.rows (.point b)

/-- The rows the rollback callback drops for a payload. A statement with too many parameters does not
prepare and drops nothing. -/
def covers (st : Stores) (e : PendingEntry) : Row → Bool
  | .block id => decide (e.blockIds.length ≤ st.maxVariables) && e.blockIds.contains id
  | .point label => e.blockIds.contains label ||
      decide (e.blockIds.length ≤ st.maxVariables) && (st.labels label).any e.blockIds.contains
  | .parent _ docId | .docFts docId => e.scope == .document && !e.docId.isEmpty && docId == cStr e.docId

/-- The rollback callback on a payload; `failed` are the rows whose deletion failed, which it ignores. -/
def cleanup (st : Stores) (e : PendingEntry) (failed : Row → Bool) : Stores :=
  { st with
    rows := fun r => st.rows r && !(st.covers e r && !failed r)
    labels := fun l =>
      if decide (e.blockIds.length ≤ st.maxVariables) && (st.labels l).any e.blockIds.contains && !failed (.point l)
      then none else st.labels l }

theorem cleanup_keeps {st : Stores} {e : PendingEntry} {failed : Row → Bool} {r : Row} (h : st.covers e r = false) :
    (st.cleanup e failed).rows r = st.rows r := by
  simp [cleanup, h]

theorem cleanup_drops {st : Stores} {e : PendingEntry} {r : Row} (h : st.covers e r = true) :
    (st.cleanup e fun _ => false).rows r = false := by
  simp [cleanup, h]

theorem allStoresHave_congr {st st' : Stores} {e : PendingEntry} (hblobs : st'.blobs = st.blobs)
    (hmax : st'.maxVariables = st.maxVariables) (hblock : ∀ b ∈ e.blockIds, st'.rows (.block b) = st.rows (.block b))
    (hpoint : ∀ b ∈ e.blockIds, st'.rows (.point b) = st.rows (.point b)) :
    st'.allStoresHave e = st.allStoresHave e := by
  have hexists : st'.blockExists e.blockIds = st.blockExists e.blockIds := by
    have hfilter : (e.blockIds.dedup.filter fun b => st'.rows (.block b)) =
        e.blockIds.dedup.filter fun b => st.rows (.block b) :=
      List.filter_congr fun b hb => hblock b (List.mem_dedup.mp hb)
    unfold blockExists
    rw [hmax, hfilter]
  have hall : (e.blockIds.all fun b => st'.rows (.point b)) = e.blockIds.all fun b => st.rows (.point b) := by
    rw [Bool.eq_iff_iff, List.all_eq_true, List.all_eq_true]
    exact forall₂_congr fun b hb => by rw [hpoint b hb]
  unfold allStoresHave
  rw [hblobs, hexists, hall]

/-! ## Stores only shrink under cleanups -/

/-- `st'` is `st` with some rows and label rows gone. -/
structure Shrunk (st' st : Stores) : Prop where
  rows : ∀ {r}, st'.rows r = true → st.rows r = true
  labels : ∀ {l b}, st'.labels l = some b → st.labels l = some b
  blobs : st'.blobs = st.blobs
  maxVariables : st'.maxVariables = st.maxVariables

namespace Shrunk
variable {st st' st'' : Stores}

theorem refl (st : Stores) : Shrunk st st := ⟨id, id, rfl, rfl⟩

theorem trans (h' : Shrunk st'' st') (h : Shrunk st' st) : Shrunk st'' st :=
  ⟨fun hr => h.rows (h'.rows hr), fun hl => h.labels (h'.labels hl), h'.blobs.trans h.blobs,
    h'.maxVariables.trans h.maxVariables⟩

theorem cleanup (st : Stores) (e : PendingEntry) (failed : Row → Bool) : Shrunk (st.cleanup e failed) st := by
  refine ⟨fun h => ?_, fun h => ?_, rfl, rfl⟩
  · simp only [Stores.cleanup, Bool.and_eq_true] at h
    exact h.1
  · simp only [Stores.cleanup] at h
    split at h
    · cases h
    · exact h

theorem blockExists {ids : List UInt64} (h : Shrunk st' st) (hall : st'.blockExists ids = true) :
    st.blockExists ids = true := by
  unfold Stores.blockExists at hall ⊢
  split
  · rfl
  rename_i hne
  rw [if_neg hne, Bool.and_eq_true, h.maxVariables, beq_iff_eq] at hall
  rw [Bool.and_eq_true, beq_iff_eq]
  refine ⟨hall.1, ?_⟩
  have hmono : (ids.dedup.filter fun b => st'.rows (.block b)).length ≤
      (ids.dedup.filter fun b => st.rows (.block b)).length :=
    (List.monotone_filter_right _ fun b hb => h.rows hb).length_le
  have hle : (ids.dedup.filter fun b => st.rows (.block b)).length ≤ ids.length :=
    (List.filter_sublist.trans ids.dedup_sublist).length_le
  omega

theorem allStoresHave {e : PendingEntry} (h : Shrunk st' st) (hall : st'.allStoresHave e = true) :
    st.allStoresHave e = true := by
  unfold Stores.allStoresHave at hall ⊢
  rw [h.blobs] at hall
  split
  · rename_i hblob
    rwa [if_pos hblob] at hall
  rename_i hblob
  rw [if_neg hblob] at hall
  split at hall
  · cases hall
  rename_i hblocks
  rw [if_neg]
  · rw [List.all_eq_true] at hall ⊢
    exact fun b hb => h.rows (hall b hb)
  · intro hnot
    simp only [Bool.and_eq_true, Bool.not_eq_true'] at hnot hblocks
    refine hblocks ⟨hnot.1, Bool.eq_false_iff.mpr fun hex => ?_⟩
    rw [h.blockExists hex] at hnot
    cases hnot.2

end Shrunk

end Stores
end Cortrix.Store
