import Cortrix.Store.RollbackCleanup

/-!
# Committed rows and the cleanups of Recover

`Recover` runs the rollback callback for every transaction it resolves to ROLLBACK, one after another in the
order of a hash map. The callback drops block rows and points by block id, but parents and full-text rows by
document, so the cleanup of an old attempt at a document reaches the rows of the attempt that was committed.

* `Recover` cleans up what needs it at the crash and, with block ids of their own (`FreshIds`), nothing more
  (`Sheltered.turn`), in whatever order it goes;
* `committed_row_survives_iff` : a committed row survives every order of `Recover` exactly when no cleanup it
  makes reaches the row; `committed_row_destroyed` : a document ingested again after a rolled-back attempt.
-/

namespace Cortrix.Store.WriteCoordinator
open Lib PendingLogWriter

/-! ## Rows written by live transactions -/

/-- A rollback callback reaches no row written by another transaction. -/
def Apart (s : State) : Act → Prop
  | .callback tid _ _ => ∀ e orig, s.calls tid = some (.rollbackCallback e orig) → ∀ w ∈ s.writes, w.1 ≠ e.txnId →
      s.stores.covers (rollbackPayload e.txnId orig) w.2 = false
  | _ => True

/-- The rows written by transactions that were not cleaned up are there. -/
def Present (s : State) : Prop := ∀ w ∈ s.writes, s.stores.rows w.2 = true

theorem Present.next {cfg : Config} {s s' : State} {a : Act} (h : Present s) (hq : Apart s a)
    (hnext : Next cfg s a s') : Present s' := by
  -- a callback drops the rows of its own transaction from the books
  have hclean : ∀ {tid e orig} {failed : Row → Bool}, s.calls tid = some (.rollbackCallback e orig) →
      (∀ w ∈ s.writes, w.1 ≠ e.txnId → s.stores.covers (rollbackPayload e.txnId orig) w.2 = false) →
      Present (cleanedUp s e.txnId orig failed) := by
    intro tid e orig failed _ hapart w hw
    obtain ⟨hw, hne⟩ := List.mem_filter.mp hw
    exact (Stores.cleanup_keeps (hapart w hw (by simpa using hne))).trans (h w hw)
  have hwrote : ∀ txn row, ∀ w ∈ s.writes ++ [(txn, row)], Function.update s.stores.rows row true w.2 = true := by
    intro txn row w hw
    by_cases heq : w.2 = row
    · rw [heq, Function.update_self]
    · rw [Function.update_of_ne heq]
      rcases List.mem_append.mp hw with hw | hw
      · exact h w hw
      · exact absurd (congrArg Prod.snd (List.mem_singleton.mp hw)) heq
  cases hnext with
  | cleaned hc => exact hclean hc (hq _ _ hc)
  | cleanupFailed hc st => exact hclean hc (hq _ _ hc)
  | wrote hlive => exact hwrote _ _
  | wroteLabel hlive => exact hwrote _ _
  | recovered hrec =>
    simp only [stepRecover] at hrec
    repeat' split at hrec
    all_goals cases hrec
    all_goals
      intro w hw
      cases hw
  | _ => exact h

/-! ## What Recover cleans up -/

/-- Block ids are minted for one transaction each, and none of them is the label of a contextual point. -/
structure FreshIds (entries : List PendingEntry) (stores : Stores) : Prop where
  disjoint : ∀ e ∈ entries, ∀ e' ∈ entries, e.txnId ≠ e'.txnId → ∀ b ∈ e.blockIds, b ∉ e'.blockIds
  labels : ∀ e ∈ entries, ∀ b ∈ e.blockIds, stores.labels b = none

theorem pending_mem {entries : List PendingEntry} {txn : UInt64}
    (h : (txnRecord entries txn).hasPending = true) :
    (txnRecord entries txn).pending ∈ entries ∧ (txnRecord entries txn).pending.txnId = txn := by
  induction entries using List.reverseRecOn with
  | nil => cases h
  | append_singleton entries e ih =>
    rw [txnRecord_snoc] at h ⊢
    by_cases htxn : e.txnId = txn
    · rw [if_pos htxn] at h ⊢
      cases hst : e.state <;> simp only [TxnRecord.add, hst] at h ⊢
      · exact ⟨by simp, htxn⟩
      · exact ⟨List.mem_append_left _ (ih h).1, (ih h).2⟩
      · exact ⟨List.mem_append_left _ (ih h).1, (ih h).2⟩
    · rw [if_neg htxn] at h ⊢
      exact ⟨List.mem_append_left _ (ih h).1, (ih h).2⟩

def Reaches (entries : List PendingEntry) (stores : Stores) (txn : UInt64) (row : Row) : Prop :=
  (txnRecord entries txn).needsCleanup stores = true ∧
    stores.covers ((txnRecord entries txn).payload txn) row = true

section
variable {entries : List PendingEntry} {stores : Stores} {txn txn' : UInt64} {row : Row}

theorem FreshIds.covers_eq_false (h : FreshIds entries stores) (hne : txn ≠ txn')
    (hpend : (txnRecord entries txn).hasPending = true) {b : UInt64} (hb : b ∈ (txnRecord entries txn).pending.blockIds) :
    stores.covers ((txnRecord entries txn').payload txn') (.block b) = false ∧
      stores.covers ((txnRecord entries txn').payload txn') (.point b) = false := by
  obtain ⟨hmem, htxn⟩ := pending_mem hpend
  have hlabel := h.labels _ hmem b hb
  have hnot : b ∉ ((txnRecord entries txn').payload txn').blockIds := by
    unfold TxnRecord.payload
    split
    · rename_i hpend'
      obtain ⟨hmem', htxn'⟩ := pending_mem hpend'
      exact h.disjoint _ hmem _ hmem' (by rw [htxn, htxn']; exact hne) b hb
    · simp
  simp [Stores.covers, hnot, hlabel]

theorem resolveTxn_stores (cfg : Config) (entries : List PendingEntry) (outcome : UInt64 → Outcome) (r : Recovery)
    (txn : UInt64) :
    (resolveTxn cfg entries outcome r txn).stores = r.stores ∨
      (txnRecord entries txn).needsCleanup r.stores = true ∧ (resolveTxn cfg entries outcome r txn).stores =
        r.stores.cleanup ((txnRecord entries txn).payload txn) (outcome txn).failed := by
  unfold resolveTxn
  simp only
  split
  · exact Or.inl rfl
  cases hclean : (txnRecord entries txn).needsCleanup r.stores with
  | false =>
    refine Or.inl ?_
    repeat' split
    all_goals simp_all
  | true =>
    refine Or.inr ⟨rfl, ?_⟩
    repeat' split
    all_goals simp_all

theorem covers_shrunk {st st' : Stores} {e : PendingEntry} (h : st'.Shrunk st) (hcov : st.covers e row = false) :
    st'.covers e row = false := by
  cases row with
  | point label =>
    simp only [Stores.covers, h.maxVariables, Bool.or_eq_false_iff, Bool.and_eq_false_iff] at hcov ⊢
    refine ⟨hcov.1, hcov.2.imp_right fun hlabel => ?_⟩
    cases hl : st'.labels label with
    | none => rfl
    | some b => rwa [h.labels hl] at hlabel
  | _ =>
    simp only [Stores.covers, h.maxVariables] at hcov ⊢
    exact hcov

/-- During `Recover` the rows no cleanup reaches stay as they were at the crash. -/
structure Sheltered (entries : List PendingEntry) (stores : Stores) (r : Recovery) : Prop where
  shrunk : r.stores.Shrunk stores
  kept : ∀ {row}, (∀ txn, ¬ Reaches entries stores txn row) → r.stores.rows row = stores.rows row

theorem Sheltered.needsCleanup {r : Recovery} (hids : FreshIds entries stores) (h : Sheltered entries stores r)
    (hneeds : (txnRecord entries txn).needsCleanup r.stores = true) :
    (txnRecord entries txn).needsCleanup stores = true := by
  obtain ⟨hopen, -, hrolled⟩ := Due.of_needsCleanup hneeds
  by_contra hno
  have hpend : (txnRecord entries txn).hasPending = true ∧
      r.stores.allStoresHave (txnRecord entries txn).pending = false := by
    rcases hrolled with hroll | hmissing
    · exact absurd (by simp [TxnRecord.needsCleanup, show (txnRecord entries txn).hasCommitted = false from hopen,
        show (txnRecord entries txn).hasRollback = true from hroll]) hno
    · exact hmissing
  obtain ⟨hpend, hmissing⟩ := hpend
  -- its own rows are out of reach, so it would still be complete
  have hkept : ∀ b ∈ (txnRecord entries txn).pending.blockIds,
      r.stores.rows (.block b) = stores.rows (.block b) ∧ r.stores.rows (.point b) = stores.rows (.point b) := by
    intro b hb
    have hfar : ∀ txn', txn' ≠ txn → _ := fun txn' hne => hids.covers_eq_false (Ne.symm hne) hpend hb
    refine ⟨h.kept ?_, h.kept ?_⟩
    all_goals
      rintro txn' ⟨hneeds', hcov⟩
      rcases eq_or_ne txn' txn with rfl | hne
      · exact hno hneeds'
      · simp [hfar txn' hne] at hcov
  have hsame := Stores.allStoresHave_congr h.shrunk.blobs h.shrunk.maxVariables (fun b hb => (hkept b hb).1)
    (fun b hb => (hkept b hb).2)
  rw [hsame] at hmissing
  refine hno (Due.needsCleanup (d := obligation ((txnRecord entries txn).payload txn)) ⟨hopen, rfl, Or.inr ⟨hpend, hmissing⟩⟩)

theorem Sheltered.turn {cfg : Config} {outcome : UInt64 → Outcome} {r : Recovery} (hids : FreshIds entries stores)
    (h : Sheltered entries stores r) (txn : UInt64) :
    Sheltered entries stores (resolveTxn cfg entries outcome r txn) := by
  rcases resolveTxn_stores cfg entries outcome r txn with hsame | ⟨hneeds, hclean⟩
  · exact ⟨hsame ▸ h.shrunk, fun hrow => by rw [hsame]; exact h.kept hrow⟩
  · refine ⟨hclean ▸ (Stores.Shrunk.cleanup _ _ _).trans h.shrunk, fun hrow => ?_⟩
    have hcov : stores.covers ((txnRecord entries txn).payload txn) _ = false :=
      Bool.eq_false_iff.mpr fun hcov => hrow txn ⟨h.needsCleanup hids hneeds, hcov⟩
    rw [hclean, Stores.cleanup_keeps (covers_shrunk h.shrunk hcov)]
    exact h.kept hrow

theorem Sheltered.foldl {cfg : Config} {outcome : UInt64 → Outcome} {r : Recovery} (hids : FreshIds entries stores)
    (h : Sheltered entries stores r) (order : List UInt64) :
    Sheltered entries stores (order.foldl (resolveTxn cfg entries outcome) r) := by
  induction order generalizing r with
  | nil => exact h
  | cons txn order ih => exact ih (h.turn hids txn)

/-- What `Recover` does to the stores: nothing when it is refused, else what its loop does. -/
theorem recover_stores {cfg : Config} {s s' : State} {order : List UInt64} {outcome : UInt64 → Outcome}
    {complete : Bool} (h : step cfg s (.recover order outcome complete) = some s') :
    s'.stores = s.stores ∨ s'.stores = (resolveAll cfg s.image s.stores order outcome).stores := by
  simp only [step, stepRecover] at h
  repeat' split at h
  · cases h
    exact Or.inl rfl
  · cases h
  · cases h
    exact Or.inr rfl
  · cases h
    exact Or.inr rfl

theorem recover_exists {cfg : Config} {s : State} {order : List UInt64} (outcome : UInt64 → Outcome) {complete : Bool}
    (hsize : toInt32 (readAll s.image).1.length ≤ cfg.maxRecoveryEntries)
    (horder : validOrder (readAll s.image).1 order complete = true) :
    ∃ s', step cfg s (.recover order outcome complete) = some s' ∧
      s'.stores = (resolveAll cfg s.image s.stores order outcome).stores := by
  simp only [step, stepRecover]
  rw [if_neg (Int.not_lt.mpr hsize), if_neg (by simp [horder])]
  split
  · exact ⟨_, rfl, rfl⟩
  · exact ⟨_, rfl, rfl⟩

theorem foldl_shrunk (cfg : Config) (entries : List PendingEntry) (outcome : UInt64 → Outcome) (order : List UInt64)
    (r : Recovery) : (order.foldl (resolveTxn cfg entries outcome) r).stores.Shrunk r.stores := by
  induction order generalizing r with
  | nil => exact Stores.Shrunk.refl _
  | cons txn order ih =>
    refine (ih _).trans ?_
    rcases resolveTxn_stores cfg entries outcome r txn with hsame | ⟨-, hclean⟩
    · rw [hsame]
      exact Stores.Shrunk.refl _
    · rw [hclean]
      exact Stores.Shrunk.cleanup _ _ _

theorem reached_row_lost (cfg : Config) {image : Bytes} (hreach : Reaches (readAll image).1 stores txn row)
    (order : List UInt64) :
    (resolveAll cfg image stores (txn :: order) fun _ => {}).stores.rows row = false := by
  obtain ⟨hneeds, hcov⟩ := hreach
  have hfirst : (resolveTxn cfg (readAll image).1 (fun _ => {}) { image := (readAll image).2, stores } txn).stores =
      stores.cleanup ((txnRecord (readAll image).1 txn).payload txn) fun _ => false := by
    have hopen : (txnRecord (readAll image).1 txn).hasCommitted = false := (Due.of_needsCleanup hneeds).open_
    unfold resolveTxn
    simp only [hopen, hneeds, Bool.false_or, Bool.not_true, Bool.false_and, Bool.false_eq_true, if_false, if_true]
    split <;> rfl
  refine Bool.eq_false_iff.mpr fun hrow => ?_
  have hleft := (foldl_shrunk cfg (readAll image).1 (fun _ => {}) order _).rows hrow
  rw [hfirst, Stores.cleanup_drops hcov] at hleft
  cases hleft

end

/-- **Committed rows and recovery.** After any run whose live callbacks keep to their own rows, a row written by a
committed transaction is there after every `Recover` (whatever its order, its callbacks and its appends) if and
only if `Recover` refuses the log, or no other transaction it cleans up reaches the row. -/
theorem committed_row_survives_iff (cfg : Config) (stores : Stores) (acts : List Act) (s : State)
    (hrun : run (step cfg) { stores } acts = some s) (hapart : Along (step cfg) Apart { stores } acts)
    (hids : FreshIds (readAll s.image).1 s.stores) (txn : UInt64) (row : Row)
    (hcommitted : (txnRecord (readAll s.image).1 txn).hasCommitted = true) (hwrote : (txn, row) ∈ s.writes) :
    (∀ order outcome s', step cfg s (.recover order outcome true) = some s' → s'.stores.rows row = true) ↔
      cfg.maxRecoveryEntries < toInt32 (readAll s.image).1.length ∨
        ∀ txn' ∈ txnIds (readAll s.image).1, txn' ≠ txn → ¬ Reaches (readAll s.image).1 s.stores txn' row := by
  have hinit : Present { stores } := by
    intro w hw
    cases hw
  have hpresent : Present s := run_inv (fun hi hq hstep => hi.next hq (step_next hstep)) hinit hapart hrun
  have hrow := hpresent _ hwrote
  constructor
  · intro hall
    by_contra hnot
    rw [not_or, Int.not_lt] at hnot
    obtain ⟨hsize, hreach⟩ := hnot
    simp only [not_forall, not_not] at hreach
    obtain ⟨txn', hmem, -, hreach⟩ := hreach
    -- the transaction that reaches the row goes first
    have horder : validOrder (readAll s.image).1 (txn' :: (txnIds (readAll s.image).1).erase txn') true = true := by
      rw [validOrder, if_pos rfl]
      exact List.isPerm_iff.mpr (List.perm_cons_erase hmem).symm
    obtain ⟨s', hstep, hstores⟩ := recover_exists (fun _ => {}) hsize horder
    have hkept := hall _ _ s' hstep
    rw [hstores, reached_row_lost cfg hreach] at hkept
    cases hkept
  · intro hcond order outcome s' hstep
    rcases recover_stores hstep with hsame | hloop
    · rw [hsame]
      exact hrow
    · rcases hcond with hrefused | hfar
      · simp only [step, stepRecover] at hstep
        rw [if_pos hrefused] at hstep
        cases hstep
        exact hrow
      have hstart : Sheltered (readAll s.image).1 s.stores { image := (readAll s.image).2, stores := s.stores } :=
        ⟨Stores.Shrunk.refl _, fun _ => rfl⟩
      rw [hloop, resolveAll, (hstart.foldl hids order).kept, hrow]
      intro txn' hreach
      rcases eq_or_ne txn' txn with rfl | hne
      · have hopen := (Due.of_needsCleanup hreach.1).open_
        rw [show (txnRecord (readAll s.image).1 txn').hasCommitted = false from hopen] at hcommitted
        cases hcommitted
      · exact hfar txn' (Due.of_needsCleanup hreach.1).mem_txnIds hne hreach

/-- An attempt at document `first` that is rolled back, then document `second` written and committed. -/
def rolledBackThen (first second : Bytes) : List Act :=
  [.begin 0 first [7] false .document 0, .append 0 .ok, .rollback 0 1 0, .append 0 .ok, .advance 0,
   .callback 0 true fun _ => false,
   .begin 0 second [8] false .document 0, .append 0 .ok, .write 2 (.docFts second), .write 2 (.point 8),
   .write 2 (.block 8), .commit 0 2 0, .append 0 .ok, .advance 0]

/-- The committed document is another one: its row survives. -/
theorem committed_row_survives_otherDoc :
    ∃ s, run (step {}) { stores := emptyStores } (rolledBackThen [0x64] [0x65]) = some s ∧
      (2, .docFts [0x65]) ∈ s.writes ∧
      ∀ order outcome s', step {} s (.recover order outcome true) = some s' →
        s'.stores.rows (.docFts [0x65]) = true := by
  have hstate : (run (step {}) { stores := emptyStores } (rolledBackThen [0x64] [0x65])).any (fun s =>
      (readAll s.image).1 == [{ txnId := 1, docId := [0x64], blockIds := [7] }, { state := .rollback, txnId := 1 },
          { txnId := 2, docId := [0x65], blockIds := [8] }, { state := .committed, txnId := 2 }] &&
        s.writes.contains (2, .docFts [0x65])) = true := by decide +kernel
  obtain ⟨s, hrun, hs⟩ := Option.any_eq_true _ _ |>.mp hstate
  simp only [Bool.and_eq_true, beq_iff_eq, List.contains_iff_mem] at hs
  obtain ⟨hlog, hwrote⟩ := hs
  have hlabels : s.stores.labels = fun _ => none := by
    cases hrun
    rfl
  have hapart : Along (step {}) Apart { stores := emptyStores } (rolledBackThen [0x64] [0x65]) := by
    refine ⟨trivial, trivial, trivial, trivial, trivial, ?_, trivial, trivial, trivial, trivial, trivial, trivial,
      trivial, trivial, trivial⟩
    intro e orig _ w hw
    cases hw
  refine ⟨s, hrun, hwrote, ?_⟩
  refine (committed_row_survives_iff {} emptyStores _ s hrun hapart ?_ 2 _ ?_ hwrote).mpr (Or.inr ?_)
  · rw [hlog]
    refine ⟨by simp, fun e _ b _ => by rw [hlabels]⟩
  · rw [hlog]
    rfl
  · rw [hlog]
    intro txn' hmem hne hreach
    have htxn : txn' = 1 := by
      have hmem' : txn' ∈ [(1 : UInt64), 2] := hmem
      simpa [hne] using hmem'
    subst htxn
    exact absurd hreach.2 (by simp [Stores.covers, TxnRecord.payload, txnRecord, TxnRecord.add, Stores.cStr])

/-- The committed document is the one whose earlier attempt was rolled back: `Recover` cleans that attempt up
again and takes the committed document's full-text row. -/
theorem committed_row_destroyed :
    ∃ s s', run (step {}) { stores := emptyStores } (rolledBackThen [0x64] [0x64]) = some s ∧
      (txnRecord (readAll s.image).1 2).hasCommitted = true ∧ (txnRecord (readAll s.image).1 2).pending.docId = [0x64] ∧
      (∀ e ∈ (readAll s.image).1, 2 < e.txnId → False) ∧ (2, .docFts [0x64]) ∈ s.writes ∧
      s.stores.rows (.docFts [0x64]) = true ∧ step {} s (.recover [1, 2] (fun _ => {}) true) = some s' ∧
      s'.stores.rows (.docFts [0x64]) = false := by
  have hlost : (run (step {}) { stores := emptyStores } (rolledBackThen [0x64] [0x64])).any (fun s =>
      (txnRecord (readAll s.image).1 2).hasCommitted && (txnRecord (readAll s.image).1 2).pending.docId == [0x64] &&
        ((readAll s.image).1.all fun e => !decide (2 < e.txnId)) && s.writes.contains (2, .docFts [0x64]) &&
        s.stores.rows (.docFts [0x64]) && (step {} s (.recover [1, 2] (fun _ => {}) true)).any fun s' =>
          !s'.stores.rows (.docFts [0x64])) = true := by decide +kernel
  simp only [Option.any_eq_true, Bool.and_eq_true, beq_iff_eq, List.contains_iff_mem, Bool.not_eq_true',
    List.all_eq_true, decide_eq_false_iff_not] at hlost
  obtain ⟨s, hrun, ⟨⟨⟨⟨⟨hcommitted, hdoc⟩, hlast⟩, hwrote⟩, hrow⟩, s', hstep, hgone⟩⟩ := hlost
  exact ⟨s, s', hrun, hcommitted, hdoc, hlast, hwrote, hrow, hstep, hgone⟩

end Cortrix.Store.WriteCoordinator
