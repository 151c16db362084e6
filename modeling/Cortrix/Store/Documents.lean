import Mathlib.Data.String.Basic
import Mathlib.Data.Prod.Lex
import Cortrix.Lib.Run
import Cortrix.Lib.Table

/-!
# The documents table and its versions

Repeated sources of the two producers `http_upload` and `watch_dir` are versions of one document. A statement of
`CortrixStoreSqlite` is a function on the table with the code it returns; `docPublishVersion` is a transaction.

* `hiddenDocPredicate t d` : the rows no reader sees.
-/

namespace Cortrix.Store.Documents
open Lib

inductive DocStatus
  | pending | processing | ready | error | stale | deleting | deleted
  deriving DecidableEq

/-- A row of `documents`: the columns the version statements read or write. -/
structure Doc where
  docId : String
  sourceType : String
  sourcePath : String
  status : DocStatus
  errorMessage : String
  createdAt : String
  deletedAt : Option Int
  deletedFromStatus : Option DocStatus
  deriving DecidableEq

/-- The producers that create rows of versioned sources. -/
inductive Producer
  | uploadHandler | directoryImporter | spcManager
  deriving DecidableEq

def Producer.status : Producer → DocStatus
  | .uploadHandler => .pending
  | .directoryImporter => .pending
  | .spcManager => .processing

/-! ## The predicates of the statements -/

/-- `source_type IN ('http_upload', 'watch_dir')`. -/
def versioned (sourceType : String) : Bool := sourceType == "http_upload" || sourceType == "watch_dir"

def sameSource (d k : Doc) : Bool := d.sourceType == k.sourceType && d.sourcePath == k.sourcePath

/-- `d` sorts before `k` in the order of the source lookup. -/
def older (d k : Doc) : Bool :=
  decide (d.createdAt < k.createdAt) || d.createdAt == k.createdAt && decide (d.docId < k.docId)

def live (d : Doc) : Bool := d.status != .deleted

def hiddenDocPredicate (t : List Doc) (d : Doc) : Bool :=
  d.status == .deleted ||
    versioned d.sourceType && d.status != .ready &&
      t.any fun o => sameSource o d && o.docId != d.docId && live o && (o.status == .ready || older o d)

/-! ## The statements -/

/-- `RETURNING doc_id` reports whether the row changed: 0, or -2. -/
def rowCode (p : Doc → Bool) (t : List Doc) : Int := if changes p t = 0 then -2 else 0

/-- The `SET` of a soft delete; without the marker column the status the row had is not recorded. -/
def softDeleted (marker : Bool) (nowMs : Int) (d : Doc) : Doc :=
  { d with
    deletedFromStatus := if marker then some d.status else d.deletedFromStatus
    status := .deleted
    deletedAt := some nowMs }

def docCreate (d : Doc) (t : List Doc) : List Doc × Int :=
  match insertRow Doc.docId d t with
  | some t' => (t', 0)
  | none => (t, -1)

def statusGuard (docId : String) (d : Doc) : Bool := d.docId == docId && live d

/-- `UpdateStatusLocked`: a soft-deleted row stays deleted. -/
def updateStatusLocked (docId : String) (status : DocStatus) (errorMessage : String) (t : List Doc) :
    List Doc × Int :=
  (updateWhere (statusGuard docId) (fun d => { d with status, errorMessage }) t, rowCode (statusGuard docId) t)

/-- `doc_soft_delete`: a repeat keeps the first recorded status. -/
def docSoftDelete (marker : Bool) (docId : String) (nowMs : Int) (t : List Doc) : List Doc × Int :=
  (updateWhere (fun d => d.docId == docId)
    (fun d => if live d then softDeleted marker nowMs d else { d with deletedAt := some nowMs }) t,
   rowCode (fun d => d.docId == docId) t)

def retireGuard (keepDocId : String) (t : List Doc) (d : Doc) : Bool :=
  t.any fun k => k.docId == keepDocId && versioned k.sourceType && sameSource d k && live d && older d k

/-- `RetireOlderVersionsLocked`: every live row of the keep row's source that sorts before it; the second component
is the number of rows retired. -/
def retireOlderVersionsLocked (marker : Bool) (keepDocId : String) (nowMs : Int) (t : List Doc) : List Doc × Nat :=
  (updateWhere (retireGuard keepDocId t) (softDeleted marker nowMs) t, changes (retireGuard keepDocId t) t)

def withdrawGuard (docId : String) (t : List Doc) (d : Doc) : Bool :=
  d.docId == docId && live d && d.status != .ready && versioned d.sourceType &&
    t.any fun o => sameSource o d && o.docId != d.docId && live o && older o d

def docWithdrawVersion (marker : Bool) (docId : String) (nowMs : Int) (errorMessage : String) (t : List Doc) :
    List Doc × Int :=
  (updateWhere (withdrawGuard docId t) (fun d => { softDeleted marker nowMs d with errorMessage }) t,
   rowCode (withdrawGuard docId t) t)

def restoreGuard (docId : String) (t : List Doc) (d : Doc) : Bool :=
  d.docId == docId && !live d && !t.any fun o => sameSource o d && o.docId != d.docId && live o

def docRestoreUnlessSuperseded (marker : Bool) (docId : String) (t : List Doc) : List Doc × Int :=
  (updateWhere (restoreGuard docId t)
    (fun d => { d with
      status := .ready
      deletedAt := none
      deletedFromStatus := if marker then none else d.deletedFromStatus }) t,
   rowCode (restoreGuard docId t) t)

/-- `RecoverCrashedDocs`, phase 1: `processing` rows go back to `pending`. -/
def docRecoverProcessing (t : List Doc) : List Doc :=
  updateWhere (fun d => d.status == .processing) (fun d => { d with status := .pending }) t

/-- `RecoverCrashedDocs`, phase 2: one row found in `deleting` is removed. -/
def docRecoverDeleting (docId : String) (t : List Doc) : List Doc :=
  deleteWhere (fun d => d.docId == docId && d.status == .deleting) t

/-! ## The store -/

/-- The transaction of a publication: the table as its statements have left it so far. -/
inductive Txn
  | updated (docId : String) (work : List Doc)
  | retired (work : List Doc)

/-- The committed table, and the transaction that holds the write lock. -/
structure State where
  documents : List Doc
  txn : Option Txn

def State.init : State := ⟨[], none⟩

inductive Act
  | create (producer : Producer) (docId sourceType sourcePath createdAt : String)
  | publishUpdate (docId : String)
  | publishRetire (marker : Bool) (nowMs : Int)
  | publishCommit
  | publishFail
  | withdraw (marker : Bool) (docId : String) (nowMs : Int) (errorMessage : String)
  | softDelete (marker : Bool) (docId : String) (nowMs : Int)
  | restore (marker : Bool) (docId : String)
  | updateStatus (docId : String) (status : DocStatus) (errorMessage : String)
  | crash
  | recoverProcessing
  | recoverDeleting (docId : String)
  deriving DecidableEq

def newDoc (producer : Producer) (docId sourceType sourcePath createdAt : String) : Doc :=
  { docId, sourceType, sourcePath, createdAt, status := producer.status, errorMessage := "", deletedAt := none,
    deletedFromStatus := none }

/-- A write of a connection that finds no transaction open. -/
def write (s : State) (f : List Doc → List Doc) : Option State :=
  match s.txn with
  | none => some ⟨f s.documents, none⟩
  | some _ => none

/-- New rows of a source sort after its rows; a status write to `ready` goes through the publication. -/
def step (s : State) : Act → Option State
  | .create p docId st path at_ =>
    if s.documents.all fun d => !sameSource d (newDoc p docId st path at_) || older d (newDoc p docId st path at_) then
      write s fun t => (docCreate (newDoc p docId st path at_) t).1
    else none
  | .publishUpdate docId =>
    match s.txn with
    | some _ => none
    | none =>
      let (t, rc) := updateStatusLocked docId .ready "" s.documents
      -- a missing or deleted row rolls the transaction back
      if rc = 0 then some ⟨s.documents, some (.updated docId t)⟩ else some s
  | .publishRetire marker nowMs =>
    match s.txn with
    | some (.updated docId t) => some ⟨s.documents, some (.retired (retireOlderVersionsLocked marker docId nowMs t).1)⟩
    | _ => none
  | .publishCommit =>
    match s.txn with
    | some (.retired t) => some ⟨t, none⟩
    | _ => none
  | .publishFail => some { s with txn := none }
  | .withdraw marker docId nowMs msg => write s fun t => (docWithdrawVersion marker docId nowMs msg t).1
  | .softDelete marker docId nowMs => write s fun t => (docSoftDelete marker docId nowMs t).1
  | .restore marker docId => write s fun t => (docRestoreUnlessSuperseded marker docId t).1
  | .updateStatus docId status msg =>
    if status = .ready then none else write s fun t => (updateStatusLocked docId status msg t).1
  | .crash => some { s with txn := none }
  | .recoverProcessing => write s docRecoverProcessing
  | .recoverDeleting docId => write s (docRecoverDeleting docId)

end Cortrix.Store.Documents
