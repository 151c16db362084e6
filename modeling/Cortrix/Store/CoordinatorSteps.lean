import Cortrix.Store.WriteCoordinator

/-!
# The transitions of the coordinator

`Next cfg s a s'` lists what a step can do, one constructor for each way through a call; `step_next` : the
step function does nothing else. The invariants of the coordinator are proved by cases on `Next`.
-/

namespace Cortrix.Store.WriteCoordinator
open Lib

/-! ## The critical sections -/

theorem reserve_ok {t t' : Tables} {d : Bytes} {blockIds : List UInt64} {scope : PendingEntry.Scope} {txn : UInt64}
    (h : t.reserve d blockIds scope = .ok (txn, t')) :
    t.activeDocs d = none ∧ txn = t.nextTxnId ∧
      t' = { t with
        nextTxnId := t.nextTxnId + 1
        activeTxns := Function.update t.activeTxns t.nextTxnId (some ⟨.pending, d, blockIds, scope⟩)
        activeDocs := Function.update t.activeDocs d (some t.nextTxnId) } := by
  unfold Tables.reserve at h
  split at h
  · cases h
  · rename_i hfree
    cases h
    exact ⟨by simpa using hfree, rfl, rfl⟩

theorem checkAndMark_ok {t t' : Tables} {txn : UInt64} {new : PendingEntry.State} {orig : TxnState}
    (h : t.checkAndMarkFinalizing txn new = .ok (orig, t')) :
    t.activeTxns txn = some orig ∧ orig.state = .pending ∧
      t' = { t with
        activeTxns := Function.update t.activeTxns txn (some { orig with state := new, blockIds := [] }) } := by
  unfold Tables.checkAndMarkFinalizing at h
  split at h
  · cases h
  · rename_i st hst
    split at h
    · cases h
    · cases h
    · rename_i hpend
      cases h
      exact ⟨hst, hpend, rfl⟩

theorem lt_succ_of_noWrap {n : UInt64} (h : n.toNat + 1 < 2 ^ 64) : n < n + 1 := by
  rw [UInt64.lt_iff_toNat_lt, UInt64.toNat_add, UInt64.toNat_one, Nat.mod_eq_of_lt h]
  omega

theorem releaseDoc_txns (t : Tables) (docId : Bytes) :
    (t.releaseDoc docId).nextTxnId = t.nextTxnId ∧ (t.releaseDoc docId).activeTxns = t.activeTxns := by
  unfold Tables.releaseDoc
  split <;> exact ⟨rfl, rfl⟩

theorem countCommit_tables (cfg : Config) (t : Tables) :
    (t.countCommit cfg).2.nextTxnId = t.nextTxnId ∧ (t.countCommit cfg).2.activeTxns = t.activeTxns ∧
      (t.countCommit cfg).2.activeDocs = t.activeDocs := by
  unfold Tables.countCommit
  simp only
  split <;> exact ⟨rfl, rfl, rfl⟩

/-! ## The transitions -/

/-- The slot of an action that starts a call. -/
def Act.caller : Act → Option Nat
  | .begin tid .. | .commit tid .. | .rollback tid .. => some tid
  | _ => none

/-- The state after the append of a call, its file changed by the outcome. -/
def appended (s : State) (o : AppendOutcome) (e : PendingEntry) : State :=
  { s with image := o.image s.image e.serialize }

/-- The state after the rollback callback ran on a payload. -/
def cleanedUp (s : State) (txn : UInt64) (orig : TxnState) (failed : Row → Bool) : State :=
  { s with stores := s.stores.cleanup (rollbackPayload txn orig) failed
           writes := s.writes.filter fun w => w.1 != txn }

inductive Next (cfg : Config) (s : State) : Act → State → Prop
  /-- `BeginWrite`, `Commit` or `Rollback` is turned away. -/
  | refused {a : Act} {tid : Nat} (ha : a.caller = some tid) (hrunning : s.running = true)
      (hidle : s.calls tid = none) (st : Status) :
    Next cfg s a (reply s tid st)
  | begun {tid : Nat} {docId : Bytes} {blockIds : List UInt64} {writesBlob : Bool} {scope : PendingEntry.Scope}
      {now : Int64} {txn : UInt64} {tables : Tables} (hrunning : s.running = true) (hidle : s.calls tid = none)
      (hres : s.tables.reserve docId blockIds scope = .ok (txn, tables)) :
    Next cfg s (.begin tid docId blockIds writesBlob scope now) (setCall { s with tables } tid
      (some (.beginAppend { state := .pending, txnId := txn, timestampMs := now, docId, blockIds,
                            hasBlob := writesBlob, scope })))
  | committing {tid : Nat} {txn : UInt64} {now : Int64} {orig : TxnState} {tables : Tables}
      (hrunning : s.running = true) (hidle : s.calls tid = none)
      (hmark : s.tables.checkAndMarkFinalizing txn .committed = .ok (orig, tables)) :
    Next cfg s (.commit tid txn now) (setCall { s with tables } tid
      (some (.commitAppend { state := .committed, txnId := txn, timestampMs := now } orig 0)))
  /-- A negative retry bound: the loop over the attempts has no turn. -/
  | committingBlind {tid : Nat} {txn : UInt64} {now : Int64} {orig : TxnState} {tables : Tables}
      (hrunning : s.running = true) (hidle : s.calls tid = none) (hneg : cfg.commitMaxRetries < 0)
      (hmark : s.tables.checkAndMarkFinalizing txn .committed = .ok (orig, tables)) :
    Next cfg s (.commit tid txn now) (setCall { s with tables } tid
      (some (.commitRelease { state := .committed, txnId := txn, timestampMs := now } orig)))
  | rollingBack {tid : Nat} {txn : UInt64} {now : Int64} {orig : TxnState} {tables : Tables}
      (hrunning : s.running = true) (hidle : s.calls tid = none)
      (hmark : s.tables.checkAndMarkFinalizing txn .rollback = .ok (orig, tables)) :
    Next cfg s (.rollback tid txn now) (setCall { s with tables } tid
      (some (.rollbackAppend { state := .rollback, txnId := txn, timestampMs := now } orig)))
  | beginAcked {tid : Nat} {e : PendingEntry} (hc : s.calls tid = some (.beginAppend e)) :
    Next cfg s (.append tid .ok)
      { reply (appended s .ok e) tid Status.okStatus with acked := s.acked ++ [e] }
  | beginFailed {tid : Nat} {e : PendingEntry} {landed : Nat} {err : String}
      (hc : s.calls tid = some (.beginAppend e)) :
    Next cfg s (.append tid (.failed landed err))
      (setCall (appended s (.failed landed err) e) tid (some (.beginUndo e err)))
  | commitAcked {tid : Nat} {e : PendingEntry} {orig : TxnState} {attempt : Nat}
      (hc : s.calls tid = some (.commitAppend e orig attempt)) :
    Next cfg s (.append tid .ok)
      { setCall (appended s .ok e) tid (some (.commitRelease e orig)) with acked := s.acked ++ [e] }
  | commitRetry {tid : Nat} {e : PendingEntry} {orig : TxnState} {attempt landed : Nat} {err : String}
      (hc : s.calls tid = some (.commitAppend e orig attempt)) :
    Next cfg s (.append tid (.failed landed err))
      (setCall (appended s (.failed landed err) e) tid (some (.commitAppend e orig (attempt + 1))))
  | commitFailed {tid : Nat} {e : PendingEntry} {orig : TxnState} {attempt landed : Nat} {err : String}
      (hc : s.calls tid = some (.commitAppend e orig attempt)) :
    Next cfg s (.append tid (.failed landed err))
      (setCall (appended s (.failed landed err) e) tid (some (.commitFail e orig err)))
  | rollbackAcked {tid : Nat} {e : PendingEntry} {orig : TxnState}
      (hc : s.calls tid = some (.rollbackAppend e orig)) :
    Next cfg s (.append tid .ok)
      { setCall (appended s .ok e) tid (some (.rollbackRelease e orig)) with
        acked := s.acked ++ [e], owed := s.owed ++ [obligation (rollbackPayload e.txnId orig)] }
  | rollbackFailed {tid : Nat} {e : PendingEntry} {orig : TxnState} {landed : Nat} {err : String}
      (hc : s.calls tid = some (.rollbackAppend e orig)) (st : Status) :
    Next cfg s (.append tid (.failed landed err)) (reply (appended s (.failed landed err) e) tid st)
  | undone {tid : Nat} {e : PendingEntry} {err : String} (hc : s.calls tid = some (.beginUndo e err)) (st : Status) :
    Next cfg s (.advance tid) (reply { s with tables := s.tables.undo e.txnId e.docId } tid st)
  | gaveUp {tid : Nat} {e : PendingEntry} {orig : TxnState} {err : String}
      (hc : s.calls tid = some (.commitFail e orig err)) (st : Status) :
    Next cfg s (.advance tid) (reply { s with tables := s.tables.releaseDoc orig.docId } tid st)
  | compactDue {tid : Nat} {e : PendingEntry} {orig : TxnState} (hc : s.calls tid = some (.commitRelease e orig)) :
    Next cfg s (.advance tid) (setCall { s with
      tables := ((s.tables.releaseDoc orig.docId).countCommit cfg).2 } tid (some (.commitCompact e)))
  | committed {tid : Nat} {e : PendingEntry} {orig : TxnState} (hc : s.calls tid = some (.commitRelease e orig)) :
    Next cfg s (.advance tid) (reply { s with
      tables := ((s.tables.releaseDoc orig.docId).countCommit cfg).2 } tid Status.okStatus)
  | swept {tid : Nat} {e : PendingEntry} (hc : s.calls tid = some (.commitSweep e)) :
    Next cfg s (.advance tid) (reply { s with tables := s.tables.sweep } tid Status.okStatus)
  | released {tid : Nat} {e : PendingEntry} {orig : TxnState} (hc : s.calls tid = some (.rollbackRelease e orig)) :
    Next cfg s (.advance tid) (setCall { s with tables := s.tables.releaseDoc orig.docId } tid
      (some (.rollbackCallback e orig)))
  | compacted {tid : Nat} {e : PendingEntry} (hc : s.calls tid = some (.commitCompact e)) :
    Next cfg s (.compact tid true) { setCall s tid (some (.commitSweep e)) with
      image := PendingLogWriter.compact s.image, acked := PendingLogWriter.unfinished s.acked }
  | compactFailed {tid : Nat} {e : PendingEntry} (hc : s.calls tid = some (.commitCompact e)) :
    Next cfg s (.compact tid false) (reply s tid Status.okStatus)
  | cleaned {tid : Nat} {e : PendingEntry} {orig : TxnState} {failed : Row → Bool}
      (hc : s.calls tid = some (.rollbackCallback e orig)) :
    Next cfg s (.callback tid true failed)
      { reply (cleanedUp s e.txnId orig failed) tid Status.okStatus with
        owed := s.owed.filter (· != obligation (rollbackPayload e.txnId orig)) }
  | cleanupFailed {tid : Nat} {e : PendingEntry} {orig : TxnState} {failed : Row → Bool}
      (hc : s.calls tid = some (.rollbackCallback e orig)) (st : Status) :
    Next cfg s (.callback tid false failed) (reply (cleanedUp s e.txnId orig failed) tid st)
  | wrote {txn : UInt64} {row : Row} (hlive : live s txn = true) :
    Next cfg s (.write txn row)
      { s with stores := { s.stores with rows := Function.update s.stores.rows row true }
               writes := s.writes ++ [(txn, row)] }
  | wroteLabel {txn label block : UInt64} (hlive : live s txn = true) :
    Next cfg s (.writeLabel txn label block)
      { s with
        stores := { s.stores with rows := Function.update s.stores.rows (.point label) true
                                  labels := Function.update s.stores.labels label (some block) }
        writes := s.writes ++ [(txn, .point label)] }
  | recovered {order : List UInt64} {outcome : UInt64 → Outcome} {complete : Bool} {s' : State}
      (h : stepRecover cfg s order outcome complete = some s') :
    Next cfg s (.recover order outcome complete) s'

theorem guard_eq_false {s : State} {tid : Nat} (h : ¬ (!s.running || (s.calls tid).isSome) = true) :
    s.running = true ∧ s.calls tid = none := by
  simpa using h

theorem update_mem {α : Type} {f : Nat → Option α} {tid tid' : Nat} {v : Option α} {a : α}
    (h : Function.update f tid v tid' = some a) : tid' = tid ∧ v = some a ∨ tid' ≠ tid ∧ f tid' = some a := by
  rcases eq_or_ne tid' tid with rfl | hne
  · exact Or.inl ⟨rfl, by simpa using h⟩
  · exact Or.inr ⟨hne, by simpa [hne] using h⟩

theorem update_none_mem {α : Type} {f : Nat → Option α} {tid tid' : Nat} {a : α}
    (h : Function.update f tid none tid' = some a) : tid' ≠ tid ∧ f tid' = some a := by
  rcases update_mem h with ⟨-, hv⟩ | hrest
  · cases hv
  · exact hrest

theorem append_next {cfg : Config} {s s' : State} {tid : Nat} {o : AppendOutcome}
    (h : stepAppend cfg s tid o = some s') : Next cfg s (.append tid o) s' := by
  unfold stepAppend at h
  split at h
  · rename_i e hc
    cases o with
    | ok =>
      cases h
      exact .beginAcked hc
    | failed landed err =>
      cases h
      exact .beginFailed hc
  · rename_i e orig attempt hc
    cases o with
    | ok =>
      cases h
      exact .commitAcked hc
    | failed landed err =>
      simp only at h
      split at h
      · cases h
        exact .commitRetry hc
      · cases h
        exact .commitFailed hc
  · rename_i e orig hc
    cases o with
    | ok =>
      cases h
      exact .rollbackAcked hc
    | failed landed err =>
      cases h
      exact .rollbackFailed hc _
  · cases h

theorem advance_next {cfg : Config} {s s' : State} {tid : Nat} (h : stepAdvance cfg s tid = some s') :
    Next cfg s (.advance tid) s' := by
  unfold stepAdvance at h
  split at h
  · rename_i hc
    cases h
    exact .undone hc _
  · rename_i hc
    cases h
    exact .gaveUp hc _
  · rename_i hc
    simp only at h
    split at h
    · cases h
      exact .compactDue hc
    · cases h
      exact .committed hc
  · rename_i hc
    cases h
    exact .swept hc
  · rename_i hc
    cases h
    exact .released hc
  · cases h

theorem step_next {cfg : Config} {s s' : State} {a : Act} (h : step cfg s a = some s') : Next cfg s a s' := by
  cases a with
  | begin tid docId blockIds writesBlob scope now =>
    simp only [step] at h
    split at h
    · cases h
    obtain ⟨hrunning, hidle⟩ := guard_eq_false ‹_›
    split at h
    · cases h
      exact .refused rfl hrunning hidle _
    · cases h
      exact .begun hrunning hidle ‹_›
  | commit tid txn now =>
    simp only [step] at h
    split at h
    · cases h
    obtain ⟨hrunning, hidle⟩ := guard_eq_false ‹_›
    split at h
    · cases h
      exact .refused rfl hrunning hidle _
    · rename_i orig tables hmark
      by_cases hneg : 0 ≤ cfg.commitMaxRetries
      · rw [if_pos hneg] at h
        cases h
        exact .committing hrunning hidle hmark
      · rw [if_neg hneg] at h
        cases h
        exact .committingBlind hrunning hidle (by omega) hmark
  | rollback tid txn now =>
    simp only [step] at h
    split at h
    · cases h
    obtain ⟨hrunning, hidle⟩ := guard_eq_false ‹_›
    split at h
    · cases h
      exact .refused rfl hrunning hidle _
    · cases h
      exact .rollingBack hrunning hidle ‹_›
  | append tid o => exact append_next h
  | advance tid => exact advance_next h
  | compact tid ok =>
    simp only [step] at h
    split at h
    · rename_i hc
      cases ok <;> cases h
      · exact .compactFailed hc
      · exact .compacted hc
    · cases h
  | callback tid ok failed =>
    simp only [step, stepCallback] at h
    split at h
    · rename_i hc
      cases ok <;> cases h
      · exact .cleanupFailed hc _
      · exact .cleaned hc
    · cases h
  | write txn row =>
    simp only [step] at h
    split at h <;> cases h
    exact .wrote ‹_›
  | writeLabel txn label block =>
    simp only [step] at h
    split at h <;> cases h
    exact .wroteLabel ‹_›
  | recover order outcome complete => exact .recovered h

end Cortrix.Store.WriteCoordinator
