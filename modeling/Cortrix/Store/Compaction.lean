import Cortrix.Store.LogCodecs
import Cortrix.Store.TxnRecords

/-!
# What a compaction of pending.wal keeps

* `Exact image` : nothing that can be observed through the log changes when it is compacted;
* `exact_iff` : it does not, unless an unfinished record has the one size whose frame, written again with a scope
  byte, no longer states its length.
-/

namespace Cortrix.Store.PendingLogWriter
open Lib WriteCoordinator
open PendingEntry (codec serialize stored Fits)

structure WalStats where
  pending : Nat
  committed : Nat
  rollback : Nat

/-- `GetStats`: terminal records are counted as they come, PENDING ones when their transaction has none. -/
def getStats (image : Bytes) : WalStats :=
  let entries := (scanRecords image).1
  { pending := (entries.filter fun e => e.state == .pending && !finalized entries e.txnId).length
    committed := (entries.filter fun e => e.state == .committed).length
    rollback := (entries.filter fun e => e.state == .rollback).length }

/-- Before and after a compaction an unresolved transaction is the same to `Recover`, the backlog is as large, what
is appended is read behind the records kept, and a second compaction changes nothing. -/
structure Exact (image : Bytes) : Prop where
  txnRecord_eq : ∀ txn, finalized (scanRecords image).1 txn = false →
    txnRecord (scanRecords (compact image)).1 txn = txnRecord (scanRecords image).1 txn
  pending_eq : (getStats (compact image)).pending = (getStats image).pending
  append_eq : ∀ es : List PendingEntry, (∀ e ∈ es, Fits e) →
    (scanRecords (compact image ++ (es.map serialize).flatten)).1 =
      unfinished (scanRecords image).1 ++ es.map stored
  compact_eq : compact (compact image) = compact image

/-! ## The records that come back -/

/-- The condition under which a compaction keeps everything: no unfinished record has exactly this size. -/
def Retainable (image : Bytes) : Prop :=
  ∀ e ∈ unfinished (scanRecords image).1, e.docId.length + 8 * e.blockIds.length ≠ 2 ^ 32 - 29

theorem Parsed.sizes {data : Bytes} {off e : Nat} {as : List PendingEntry} (h : Parsed codec data off as e) :
    ∀ a ∈ as, a.docId.length < 2 ^ 16 ∧ (a.state = .pending → 28 + a.docId.length + 8 * a.blockIds.length < 2 ^ 32) := by
  induction h with
  | nil => simp
  | cons head _ ih =>
    intro a ha
    rcases List.mem_cons.mp ha with rfl | ha
    · exact PendingEntry.decodeAt_sizes head
    · exact ih a ha

theorem sizes_of_mem_scanRecords {image : Bytes} {e : PendingEntry} (h : e ∈ (scanRecords image).1) :
    e.docId.length < 2 ^ 16 ∧ (e.state = .pending → 28 + e.docId.length + 8 * e.blockIds.length < 2 ^ 32) := by
  have hscan : scanRecords image =
      scan codec image (if kHeaderSize ≤ image.length then kHeaderSize else image.length) := by
    unfold scanRecords
    simp only [PendingEntry.deserializeFrom_toOption]
    rfl
  rw [hscan] at h
  exact Parsed.sizes (scan_spec image _).1 e h

theorem retainable_iff (image : Bytes) : Retainable image ↔ ∀ e ∈ unfinished (scanRecords image).1, Fits e := by
  refine forall_congr' fun e => forall_congr' fun he => ?_
  obtain ⟨hmem, hst, -⟩ := mem_unfinished.mp he
  obtain ⟨hdoc, hsize⟩ := sizes_of_mem_scanRecords hmem
  have hlt := hsize hst
  constructor
  · intro hne _
    exact ⟨hdoc, by omega⟩
  · intro hfit
    obtain ⟨-, hroom⟩ := hfit hst
    omega

/-! ## Retained records that fit -/

theorem unfinished_unfinished (entries : List PendingEntry) : unfinished (unfinished entries) = unfinished entries := by
  apply List.filter_eq_self.mpr
  intro e he
  obtain ⟨-, hst, -⟩ := mem_unfinished.mp he
  have hnone : finalized (unfinished entries) e.txnId = false := by
    unfold finalized
    apply List.any_eq_false.mpr
    intro e' he'
    have hst' := (mem_unfinished.mp he').2.1
    simp [hst']
  simp [hst, hnone]

theorem getStats_pending (image : Bytes) : (getStats image).pending = (unfinished (scanRecords image).1).length := rfl

theorem exact_of_retainable {image : Bytes} (h : Retainable image) : Exact image := by
  have hfit := (retainable_iff image).mp h
  have hscan := scanRecords_compact_of_retained hfit
  refine ⟨fun txn hopen => ?_, ?_, fun es hes => ?_, ?_⟩
  · rw [hscan, txnRecord_unfinished, hopen]
    rfl
  · rw [getStats_pending, getStats_pending, hscan, unfinished_unfinished]
  · have happ := scanRecords_append es (WellHeaded.compact image).le_length (by rw [hscan]) hes
    rw [happ, hscan]
  · show makeHeader ++ ((unfinished (scanRecords (compact image)).1).map serialize).flatten = compact image
    rw [hscan, unfinished_unfinished]
    rfl

/-! ## A retained record that does not fit -/

theorem exists_first_not {α : Type} {P : α → Prop} {as : List α} (h : ¬ ∀ a ∈ as, P a) :
    ∃ pre a post, as = pre ++ a :: post ∧ (∀ b ∈ pre, P b) ∧ ¬ P a := by
  induction as with
  | nil => exact absurd (by simp) h
  | cons a as ih =>
    by_cases ha : P a
    · have hrest : ¬ ∀ b ∈ as, P b := fun hall => h (by simpa [ha] using hall)
      obtain ⟨pre, b, post, rfl, hpre, hb⟩ := ih hrest
      exact ⟨a :: pre, b, post, rfl, by simpa [ha] using hpre, hb⟩
    · exact ⟨[], a, as, rfl, by simp, ha⟩

/-- The scan of the compacted log stops at the first record whose frame wrapped. -/
theorem scanRecords_compact_wrapped {image : Bytes} {pre post : List PendingEntry} {e : PendingEntry}
    (hsplit : unfinished (scanRecords image).1 = pre ++ e :: post) (hpre : ∀ b ∈ pre, Fits b) (he : ¬ Fits e) :
    (scanRecords (compact image)).1 = pre := by
  have hmem : ∀ b ∈ pre ++ e :: post, b ∈ unfinished (scanRecords image).1 := by rw [hsplit]; simp
  obtain ⟨hscan, hst, -⟩ := mem_unfinished.mp (hmem e (by simp))
  obtain ⟨hdoc, hsize⟩ := sizes_of_mem_scanRecords hscan
  have hwrap : (PendingEntry.body e).length + 4 = 2 ^ 32 := by
    have hlt := hsize hst
    rw [PendingEntry.length_body, if_pos hst]
    by_contra hne
    exact he fun _ => ⟨hdoc, by omega⟩
  have hstored : pre.map stored = pre := by
    have h : pre.map stored = pre.map id :=
      List.map_congr_left fun b hb => PendingEntry.stored_pending (mem_unfinished.mp (hmem b (by simp [hb]))).2.1
    rw [h, List.map_id]
  have hbytes : compact image =
      makeHeader ++ (pre.map serialize).flatten ++ (serialize e ++ (post.map serialize).flatten) := by
    unfold compact
    rw [hsplit, List.map_append, List.map_cons, List.flatten_append, List.flatten_cons, List.append_assoc]
  have hparsed := (Parsed.frames (c := codec) makeHeader pre hpre).grow (serialize e ++ (post.map serialize).flatten)
  have hend := PendingEntry.decodeAt_wrapped hwrap (makeHeader ++ (pre.map serialize).flatten)
    (post.map serialize).flatten
  rw [scanRecords_eq (WellHeaded.compact image).le_length, hbytes, ← length_makeHeader]
  have h := scan_eq hparsed hend
  rw [show pre.map codec.stored = pre from hstored] at h
  exact congrArg Prod.fst h

theorem retainable_of_exact {image : Bytes} (h : Exact image) : Retainable image := by
  by_contra hnot
  rw [retainable_iff] at hnot
  obtain ⟨pre, e, post, hsplit, hpre, he⟩ := exists_first_not hnot
  have hscan := scanRecords_compact_wrapped hsplit hpre he
  -- fewer records are left than there were unfinished ones
  have hcount := h.pending_eq
  rw [getStats_pending, getStats_pending, hscan, hsplit] at hcount
  have hle : (unfinished pre).length ≤ pre.length := List.length_filter_le _ _
  rw [List.length_append, List.length_cons] at hcount
  omega

/-- A compaction changes nothing that can be observed exactly when no unfinished record has the size that wraps. -/
theorem exact_iff (image : Bytes) : Exact image ↔ Retainable image := ⟨retainable_of_exact, exact_of_retainable⟩

/-! ## A record of that size -/

def hugeEntry : PendingEntry where
  txnId := 1
  docId := [0x64, 0x6f, 0x63]
  blockIds := List.replicate (2 ^ 29 - 4) 7

/-- Its frame, written without a scope byte, behind the header. -/
def hugeLog : Bytes := makeHeader ++ hugeEntry.serializeNoScope

theorem hugeLog_not_exact : (scanRecords hugeLog).1 = [hugeEntry] ∧ ¬ Exact hugeLog := by
  have hids : hugeEntry.blockIds.length = 2 ^ 29 - 4 := List.length_replicate
  have hdoc : hugeEntry.docId.length = 3 := rfl
  have hfits : PendingEntry.FitsNoScope hugeEntry := by
    intro _
    rw [hids, hdoc]
    omega
  have hscan : (scanRecords hugeLog).1 = [hugeEntry] := by
    have hframe : IsFrame codec hugeEntry.serializeNoScope hugeEntry :=
      PendingEntry.isFrame_serializeNoScope hfits
    have hparsed := Parsed.cons (hframe makeHeader) (Parsed.nil _)
    rw [scanRecords_eq (by unfold hugeLog; rw [List.length_append, length_makeHeader]; omega), ← length_makeHeader]
    exact congrArg Prod.fst (scan_eq hparsed (Codec.decodeAt_end (le_refl _)))
  refine ⟨hscan, fun hexact => ?_⟩
  have hmem : hugeEntry ∈ unfinished (scanRecords hugeLog).1 := by
    rw [hscan]
    exact mem_unfinished.mpr ⟨by simp, rfl, rfl⟩
  apply retainable_of_exact hexact hugeEntry hmem
  rw [hids, hdoc]
  omega

end Cortrix.Store.PendingLogWriter
