import Cortrix.Lib.Run
import Cortrix.Store.PendingLogWriter
import Cortrix.Store.Stores

/-!
# WriteCoordinator: the transaction state machine over pending.wal

`BeginWrite`, `Commit` and `Rollback` run on any number of threads. Each call is cut at its critical
sections, its appends and its callback, so that every interleaving is a run of `step`.

* `State`, `Act`, `step` : the machine, with the history the results speak about (`acked`, `owed`,
  `writes`).
-/

namespace Cortrix.Store.WriteCoordinator
open Lib PendingLogWriter

structure Config where
  commitMaxRetries : Int := 3
  compactThreshold : Int := 1000
  maxRecoveryEntries : Int := 10000
  strictRecovery : Bool := false

structure TxnState where
  state : PendingEntry.State
  docId : Bytes
  blockIds : List UInt64
  scope : PendingEntry.Scope

/-! ## The tables and their critical sections -/

structure Tables where
  nextTxnId : UInt64 := 1
  activeTxns : UInt64 → Option TxnState := fun _ => none
  activeDocs : Bytes → Option UInt64 := fun _ => none
  committedSinceCompact : UInt32 := 0

def docText (docId : Bytes) : String := String.ofList (docId.map fun b => Char.ofNat b.toNat)

namespace Tables

/-- `BeginWrite` under the lock: refuse a document with a live transaction, else allocate the transaction. -/
def reserve (t : Tables) (docId : Bytes) (blockIds : List UInt64) (scope : PendingEntry.Scope) :
    Except Status (UInt64 × Tables) :=
  if (t.activeDocs docId).isSome then
    .error (pwlStatus .alreadyExists PwlErrors.kDocWriteInProgress
      ("doc_id already has a live transaction: " ++ docText docId))
  else
    let txn := t.nextTxnId
    .ok (txn, { t with
      nextTxnId := txn + 1
      activeTxns := Function.update t.activeTxns txn (some ⟨.pending, docId, blockIds, scope⟩)
      activeDocs := Function.update t.activeDocs docId (some txn) })

/-- The undo of a reservation whose PENDING append failed. -/
def undo (t : Tables) (txn : UInt64) (docId : Bytes) : Tables :=
  { t with activeTxns := Function.update t.activeTxns txn none
           activeDocs := Function.update t.activeDocs docId none }

/-- Only a PENDING transaction can be finalized; its payload is copied out and its state marked. -/
def checkAndMarkFinalizing (t : Tables) (txn : UInt64) (newState : PendingEntry.State) :
    Except Status (TxnState × Tables) :=
  match t.activeTxns txn with
  | none => .error (pwlStatus .notFound PwlErrors.kTxnNotFound "no such transaction")
  | some st =>
    match st.state with
    | .committed =>
      .error (pwlStatus .alreadyExists PwlErrors.kTxnAlreadyCommitted "transaction already committed")
    | .rollback =>
      .error (pwlStatus .alreadyExists PwlErrors.kTxnAlreadyRollback "transaction already rolled back")
    | .pending =>
      .ok (st, { t with
        activeTxns := Function.update t.activeTxns txn (some { st with state := newState, blockIds := [] }) })

/-- Release of the document; an empty `docId` is never released. -/
def releaseDoc (t : Tables) (docId : Bytes) : Tables :=
  if docId.isEmpty then t else { t with activeDocs := Function.update t.activeDocs docId none }

/-- The commit counted, and whether a compaction is due. -/
def countCommit (cfg : Config) (t : Tables) : Bool × Tables :=
  let n := t.committedSinceCompact + 1
  if 0 < cfg.compactThreshold ∧ UInt32.ofNat cfg.compactThreshold.toNat ≤ n then
    (true, { t with committedSinceCompact := 0 })
  else (false, { t with committedSinceCompact := n })

/-- After a compaction the finalized transactions leave the table. -/
def sweep (t : Tables) : Tables :=
  { t with activeTxns := fun txn => (t.activeTxns txn).filter fun st => st.state == .pending }

end Tables

/-! ## Calls in flight -/

inductive Call
  /-- `BeginWrite`: reserved, the PENDING record to be appended. -/
  | beginAppend (e : PendingEntry)
  | beginUndo (e : PendingEntry) (err : String)
  /-- `Commit`: marked, the COMMITTED record to be appended. -/
  | commitAppend (e : PendingEntry) (orig : TxnState) (attempt : Nat)
  | commitFail (e : PendingEntry) (orig : TxnState) (err : String)
  | commitRelease (e : PendingEntry) (orig : TxnState)
  | commitCompact (e : PendingEntry)
  | commitSweep (e : PendingEntry)
  /-- `Rollback`: marked, the ROLLBACK record to be appended. -/
  | rollbackAppend (e : PendingEntry) (orig : TxnState)
  | rollbackRelease (e : PendingEntry) (orig : TxnState)
  | rollbackCallback (e : PendingEntry) (orig : TxnState)

/-- How an append ends: durable and acknowledged, or failed with the first `landed` bytes in the file. -/
inductive AppendOutcome
  | ok
  | failed (landed : Nat) (err : String)
  deriving DecidableEq

def AppendOutcome.image (o : AppendOutcome) (image frame : Bytes) : Bytes :=
  match o with
  | .ok => image ++ frame
  | .failed landed _ => image ++ frame.take landed

def rollbackPayload (txn : UInt64) (orig : TxnState) : PendingEntry :=
  { state := .pending, txnId := txn, docId := orig.docId, blockIds := orig.blockIds, scope := orig.scope }

/-- A cleanup that is due: the transaction and what its callback must be given. -/
structure Obligation where
  txnId : UInt64
  docId : Bytes
  blockIds : List UInt64
  scope : PendingEntry.Scope
  deriving DecidableEq

/-- What a payload says about the transaction it cleans up. -/
def obligation (payload : PendingEntry) : Obligation :=
  ⟨payload.txnId, payload.docId, payload.blockIds, payload.scope⟩

def writeFailed (detail : String) : Status := pwlStatus .unavailable PwlErrors.kWriteFailed detail

/-! ## Recover -/

/-- What the log says about one transaction. -/
structure TxnRecord where
  hasPending : Bool := false
  hasCommitted : Bool := false
  hasRollback : Bool := false
  pending : PendingEntry := {}

def TxnRecord.add (r : TxnRecord) (e : PendingEntry) : TxnRecord :=
  match e.state with
  | .pending => { r with hasPending := true, pending := e }
  | .committed => { r with hasCommitted := true }
  | .rollback => { r with hasRollback := true }

def txnRecord (entries : List PendingEntry) (txn : UInt64) : TxnRecord :=
  (entries.filter fun e => e.txnId == txn).foldl TxnRecord.add {}

/-- The payload `Recover` hands to the callback. -/
def TxnRecord.payload (r : TxnRecord) (txn : UInt64) : PendingEntry :=
  { (if r.hasPending then r.pending else {}) with state := .pending, txnId := txn }

def TxnRecord.needsCleanup (r : TxnRecord) (st : Stores) : Bool :=
  if r.hasCommitted then false
  else if r.hasRollback then true
  else if r.hasPending then !st.allStoresHave r.pending
  else false

/-- How the outside world answers while one transaction is resolved. -/
structure Outcome where
  callbackOk : Bool := true
  /-- The rows whose deletion by the callback failed. -/
  failed : Row → Bool := fun _ => false
  append : AppendOutcome := .ok
  now : Int64 := 0

/-- The files, and the callback invocations made so far with their results. -/
structure Recovery where
  image : Bytes
  stores : Stores
  invoked : List (PendingEntry × Bool) := []
  aborted : Bool := false

/-- The body of the loop over the transactions. -/
def resolveTxn (cfg : Config) (entries : List PendingEntry) (outcome : UInt64 → Outcome) (r : Recovery)
    (txn : UInt64) : Recovery :=
  let rec_ := txnRecord entries txn
  let o := outcome txn
  if r.aborted || rec_.hasCommitted then r else
  let cleaned := rec_.needsCleanup r.stores
  let r' : Recovery := if cleaned then
      { r with stores := r.stores.cleanup (rec_.payload txn) o.failed
               invoked := r.invoked ++ [(rec_.payload txn, o.callbackOk)]
               aborted := !o.callbackOk && cfg.strictRecovery }
    else r
  if r'.aborted then r' else
  if rec_.hasPending && !rec_.hasRollback then
    let term : PendingEntry :=
      { state := if cleaned then .rollback else .committed, txnId := txn, timestampMs := o.now }
    { r' with image := o.append.image r'.image term.serialize
              aborted := o.append != .ok && cfg.strictRecovery }
  else r'

def txnIds (entries : List PendingEntry) : List UInt64 := (entries.map PendingEntry.txnId).dedup

/-- `static_cast<int>` of a size. -/
def toInt32 (n : Nat) : Int := (BitVec.ofNat 32 n).toInt

def maxTxn (entries : List PendingEntry) : UInt64 := entries.foldl (fun m e => max m e.txnId) 0

/-- `Recover` behind its guards: read the log and resolve the transactions one by one. -/
def resolveAll (cfg : Config) (image : Bytes) (stores : Stores) (order : List UInt64)
    (outcome : UInt64 → Outcome) : Recovery :=
  order.foldl (resolveTxn cfg (readAll image).1 outcome) { image := (readAll image).2, stores }

/-! ## The machine -/

structure State where
  tables : Tables := {}
  calls : Nat → Option Call := fun _ => none
  image : Bytes := makeHeader
  stores : Stores
  /-- The coordinator is initialised and recovered. -/
  running : Bool := true
  replies : List (Nat × Status) := []
  /-- The records acknowledged and not dropped by a compaction since. -/
  acked : List PendingEntry := []
  /-- The cleanups due: a ROLLBACK record was acknowledged, or `Recover` rolled the transaction back, and no
  invocation of the callback has succeeded. -/
  owed : List Obligation := []
  /-- The rows written by transactions that were not cleaned up. -/
  writes : List (UInt64 × Row) := []

def emptyStores : Stores := { rows := fun _ => false, labels := fun _ => none, blobs := fun _ => false }

inductive Act
  | begin (tid : Nat) (docId : Bytes) (blockIds : List UInt64) (writesBlob : Bool) (scope : PendingEntry.Scope)
      (now : Int64)
  | commit (tid : Nat) (txn : UInt64) (now : Int64)
  | rollback (tid : Nat) (txn : UInt64) (now : Int64)
  | append (tid : Nat) (outcome : AppendOutcome)
  /-- The next critical section of the call. -/
  | advance (tid : Nat)
  | compact (tid : Nat) (ok : Bool)
  | callback (tid : Nat) (ok : Bool) (failed : Row → Bool)
  /-- The owner of a transaction writes a row, or a contextual point with its label row. -/
  | write (txn : UInt64) (row : Row)
  | writeLabel (txn label block : UInt64)
  /-- The process dies and a new one recovers; `complete` is false when it dies again on the way. -/
  | recover (order : List UInt64) (outcome : UInt64 → Outcome) (complete : Bool)

def setCall (s : State) (tid : Nat) (c : Option Call) : State := { s with calls := Function.update s.calls tid c }

def reply (s : State) (tid : Nat) (st : Status) : State :=
  { setCall s tid none with replies := s.replies ++ [(tid, st)] }

def stepAppend (cfg : Config) (s : State) (tid : Nat) (o : AppendOutcome) : Option State :=
  match s.calls tid with
  | some (.beginAppend e) =>
    let s := { s with image := o.image s.image e.serialize }
    match o with
    | .ok => some { reply s tid Status.okStatus with acked := s.acked ++ [e] }
    | .failed _ err => some (setCall s tid (some (.beginUndo e err)))
  | some (.commitAppend e orig attempt) =>
    let s := { s with image := o.image s.image e.serialize }
    match o with
    | .ok => some { setCall s tid (some (.commitRelease e orig)) with acked := s.acked ++ [e] }
    | .failed _ err =>
      if (attempt : Int) < cfg.commitMaxRetries then
        some (setCall s tid (some (.commitAppend e orig (attempt + 1))))
      else some (setCall s tid (some (.commitFail e orig err)))
  | some (.rollbackAppend e orig) =>
    let s := { s with image := o.image s.image e.serialize }
    match o with
    | .ok =>
      some { setCall s tid (some (.rollbackRelease e orig)) with
        acked := s.acked ++ [e], owed := s.owed ++ [obligation (rollbackPayload e.txnId orig)] }
    | .failed _ err => some (reply s tid (writeFailed ("append ROLLBACK failed: " ++ err)))
  | _ => none

def stepAdvance (cfg : Config) (s : State) (tid : Nat) : Option State :=
  match s.calls tid with
  | some (.beginUndo e err) =>
    some (reply { s with tables := s.tables.undo e.txnId e.docId } tid
      (writeFailed ("append PENDING failed: " ++ err)))
  | some (.commitFail _ orig err) =>
    some (reply { s with tables := s.tables.releaseDoc orig.docId } tid
      (writeFailed ("append COMMITTED failed after retries: " ++ err)))
  | some (.commitRelease e orig) =>
    let (due, tables) := (s.tables.releaseDoc orig.docId).countCommit cfg
    let s := { s with tables }
    some (if due then setCall s tid (some (.commitCompact e)) else reply s tid Status.okStatus)
  | some (.commitSweep _) => some (reply { s with tables := s.tables.sweep } tid Status.okStatus)
  | some (.rollbackRelease e orig) =>
    some (setCall { s with tables := s.tables.releaseDoc orig.docId } tid (some (.rollbackCallback e orig)))
  | _ => none

/-- The end of a `Rollback`: the callback and what it returned. -/
def stepCallback (s : State) (tid : Nat) (ok : Bool) (failed : Row → Bool) : Option State :=
  match s.calls tid with
  | some (.rollbackCallback e orig) =>
    let payload := rollbackPayload e.txnId orig
    let s := { s with stores := s.stores.cleanup payload failed
                      writes := s.writes.filter fun w => w.1 != e.txnId }
    some (if ok then { reply s tid Status.okStatus with owed := s.owed.filter (· != obligation payload) }
      else reply s tid (pwlStatus .internal PwlErrors.kRollbackCallbackFailed "rollback callback failed"))
  | _ => none

/-- The ids of every transaction, each once, or some of them when the process dies on the way. -/
def validOrder (entries : List PendingEntry) (order : List UInt64) (complete : Bool) : Bool :=
  if complete then order.isPerm (txnIds entries)
  else decide order.Nodup && order.all (txnIds entries).contains

/-- Crash and recovery. An error return, a failed compaction or a second crash leaves the coordinator down. -/
def stepRecover (cfg : Config) (s : State) (order : List UInt64) (outcome : UInt64 → Outcome) (complete : Bool) :
    Option State :=
  let entries := (readAll s.image).1
  let down : State := { stores := s.stores, image := (readAll s.image).2, running := false, replies := s.replies,
                        acked := s.acked, owed := s.owed, writes := [] }
  if cfg.maxRecoveryEntries < toInt32 entries.length then some down
  else if !validOrder entries order complete then none
  else
    let r := resolveAll cfg s.image s.stores order outcome
    let owed := (s.owed ++ r.invoked.map fun i => obligation i.1).filter fun d =>
      !r.invoked.any fun i => i.2 && obligation i.1 == d
    let down := { down with image := r.image, stores := r.stores, owed }
    if r.aborted || !complete then some down
    else some { down with image := compact r.image, running := true, acked := unfinished (scanRecords r.image).1
                          tables := { nextTxnId := maxTxn entries + 1 } }

/-- The owner may write while its transaction is live. -/
def live (s : State) (txn : UInt64) : Bool := (s.tables.activeTxns txn).any fun st => st.state == .pending

def step (cfg : Config) (s : State) : Act → Option State
  | .begin tid docId blockIds writesBlob scope now =>
    if !s.running || (s.calls tid).isSome then none else
    match s.tables.reserve docId blockIds scope with
    | .error st => some (reply s tid st)
    | .ok (txn, tables) =>
      let e : PendingEntry :=
        { state := .pending, txnId := txn, timestampMs := now, docId, blockIds, hasBlob := writesBlob, scope }
      some (setCall { s with tables } tid (some (.beginAppend e)))
  | .commit tid txn now =>
    if !s.running || (s.calls tid).isSome then none else
    match s.tables.checkAndMarkFinalizing txn .committed with
    | .error st => some (reply s tid st)
    | .ok (orig, tables) =>
      let e : PendingEntry := { state := .committed, txnId := txn, timestampMs := now }
      let next := if 0 ≤ cfg.commitMaxRetries then Call.commitAppend e orig 0 else .commitRelease e orig
      some (setCall { s with tables } tid (some next))
  | .rollback tid txn now =>
    if !s.running || (s.calls tid).isSome then none else
    match s.tables.checkAndMarkFinalizing txn .rollback with
    | .error st => some (reply s tid st)
    | .ok (orig, tables) =>
      let e : PendingEntry := { state := .rollback, txnId := txn, timestampMs := now }
      some (setCall { s with tables } tid (some (.rollbackAppend e orig)))
  | .append tid o => stepAppend cfg s tid o
  | .advance tid => stepAdvance cfg s tid
  | .compact tid ok =>
    match s.calls tid with
    | some (.commitCompact e) =>
      some (if ok then { setCall s tid (some (.commitSweep e)) with
                           image := compact s.image, acked := unfinished s.acked }
        else reply s tid Status.okStatus)
    | _ => none
  | .callback tid ok failed => stepCallback s tid ok failed
  | .write txn row =>
    if live s txn then
      some { s with stores := { s.stores with rows := Function.update s.stores.rows row true }
                    writes := s.writes ++ [(txn, row)] }
    else none
  | .writeLabel txn label block =>
    if live s txn then
      some { s with
        stores := { s.stores with rows := Function.update s.stores.rows (.point label) true
                                  labels := Function.update s.stores.labels label (some block) }
        writes := s.writes ++ [(txn, .point label)] }
    else none
  | .recover order outcome complete => stepRecover cfg s order outcome complete

end Cortrix.Store.WriteCoordinator
