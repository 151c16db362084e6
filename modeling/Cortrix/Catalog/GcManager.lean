import Cortrix.Lib.Run
import Cortrix.Lib.Table

/-!
# Catalog references and the three-stage collection

The tables of `catalog.db` that reference counting and collection work on, and one process over them: `ContentRefStore`
calls, `GcManager` calls, and the write path that inserts and soft-deletes file rows. Each step is one SQL statement or
one transaction; one that fails leaves the tables as they are. `Gc` is the place of the thread that holds the mutex of
`GcManager`; `ContentRefStore` has a mutex of its own, so its calls come in between.
-/

namespace Cortrix.Catalog
open Lib

/-! ## Tables -/

inductive RowStatus
  | active | deleted
  deriving DecidableEq

/-- A row of `file_locations`; an empty `blobUri` is the SQL `NULL`, which the sweep reads as empty. -/
structure FileLocation where
  fileHash : String
  blobUri : String
  refCount : Int
  status : RowStatus
  deletedAt : Option Int
  deriving DecidableEq

structure ContentRef where
  fileHash : String
  nsId : String
  docId : String
  status : RowStatus
  deriving DecidableEq

inductive QueueStatus
  | pending | unlinked
  deriving DecidableEq

structure QueueRow where
  blobUri : String
  fileHash : String
  queuedAt : Int
  eligibleAt : Int
  lastRefCheck : Int
  status : QueueStatus

structure Tables where
  files : List FileLocation
  refs : List ContentRef
  queue : List QueueRow

def ContentRef.key (r : ContentRef) : String × String × String := (r.fileHash, r.nsId, r.docId)

/-- `SELECT COUNT(*) FROM content_refs WHERE file_hash=? AND status='active'`. -/
def activeRefs (fileHash : String) (refs : List ContentRef) : Nat :=
  changes (fun r => r.fileHash == fileHash && r.status == .active) refs

/-! ## References -/

def isActiveRef (fileHash nsId docId : String) (r : ContentRef) : Bool :=
  r.key == (fileHash, nsId, docId) && r.status == .active

def upsertRef (fileHash nsId docId : String) (refs : List ContentRef) : List ContentRef :=
  match insertRow ContentRef.key ⟨fileHash, nsId, docId, .active⟩ refs with
  | some refs' => refs'
  | none => updateWhere (fun r => r.key == (fileHash, nsId, docId)) (fun r => { r with status := .active }) refs

def addRefCount (fileHash : String) (n : Int) (files : List FileLocation) : List FileLocation :=
  updateWhere (fun f => f.fileHash == fileHash) (fun f => { f with refCount := f.refCount + n }) files

/-- `IncrementRef`: the aggregate is bumped for a reference that was not active. -/
def incrementRef (fileHash nsId docId : String) (c : Tables) : Tables :=
  if c.refs.any (isActiveRef fileHash nsId docId) then c
  else { c with refs := upsertRef fileHash nsId docId c.refs, files := addRefCount fileHash 1 c.files }

/-- The count `DecrementRef` reads: -1 for a file without a row. -/
def currentCount (fileHash : String) (c : Tables) : Int :=
  match lookup FileLocation.fileHash fileHash c.files with
  | some f => f.refCount
  | none => -1

def softDeleteRef (fileHash nsId docId : String) (refs : List ContentRef) : List ContentRef :=
  updateWhere (isActiveRef fileHash nsId docId) (fun r => { r with status := .deleted }) refs

/-- `DecrementRef`; `none` for the rollback of a count that is 0 already. -/
def decrementRef (fileHash nsId docId : String) (c : Tables) : Option Tables :=
  if c.refs.any (isActiveRef fileHash nsId docId) then
    if currentCount fileHash c = 0 then none
    else if 0 < currentCount fileHash c then
      some { c with refs := softDeleteRef fileHash nsId docId c.refs, files := addRefCount fileHash (-1) c.files }
    else some { c with refs := softDeleteRef fileHash nsId docId c.refs }
  else some c

def reactivateRefs (fileHash docId : String) (refs : List ContentRef) : List ContentRef :=
  updateWhere (fun r => r.fileHash == fileHash && r.docId == docId && r.status == .deleted)
    (fun r => { r with status := .active }) refs

/-- The transaction of `Restore` for one document of one file. -/
def restoreRefs (fileHash docId : String) (c : Tables) : Tables :=
  { c with
    refs := reactivateRefs fileHash docId c.refs
    files := updateWhere (fun f => f.fileHash == fileHash)
      (fun f => { f with
        status := .active, deletedAt := none, refCount := activeRefs fileHash (reactivateRefs fileHash docId c.refs) })
      c.files }

/-! ## Collection -/

structure GcConfig where
  softDeleteRetentionDays : Int
  blobGcRetentionDays : Int
  maxPurgePerRun : Int
  maxRunDurationMinutes : Int
  dryRun : Bool

def daysToMs (days : Int) : Int := days * 24 * 3600 * 1000

/-- A candidate of Stage 2: the hash and the uri of a file. -/
structure Cand where
  fileHash : String
  blobUri : String
  deriving DecidableEq

def stage2Cutoff (cfg : GcConfig) (now : Int) (bypass : Bool) : Int :=
  if bypass then now else now - daysToMs cfg.softDeleteRetentionDays

/-- The soft-deleted files past the cutoff without an active reference. -/
def stage2Candidates (cutoff : Int) (c : Tables) : List Cand :=
  (c.files.filter fun f =>
    f.status == .deleted && f.deletedAt.any (fun at_ => decide (at_ ≤ cutoff)) && activeRefs f.fileHash c.refs == 0).map
      fun f => ⟨f.fileHash, f.blobUri⟩

def enqueueBlob (row : QueueRow) (queue : List QueueRow) : List QueueRow :=
  (insertRow QueueRow.blobUri row queue).getD queue

/-- The transaction of Stage 2 for one candidate. -/
def hardDelete (cand : Cand) (queuedAt eligibleAt : Int) (c : Tables) : Tables :=
  { queue := if cand.blobUri = "" then c.queue
      else enqueueBlob ⟨cand.blobUri, cand.fileHash, queuedAt, eligibleAt, queuedAt, .pending⟩ c.queue
    refs := deleteWhere (fun r => r.fileHash == cand.fileHash && r.status == .deleted) c.refs
    files := deleteWhere (fun f => f.fileHash == cand.fileHash) c.files }

def stage3Uris (now : Int) (bypass : Bool) (c : Tables) : List String :=
  (c.queue.filter fun q => q.status == .pending && (bypass || decide (q.eligibleAt ≤ now))).map QueueRow.blobUri

def markUnlinked (uri : String) (c : Tables) : Tables :=
  { c with queue := updateWhere (fun q => q.blobUri == uri) (fun q => { q with status := .unlinked }) c.queue }

/-! ## One process -/

structure GcRunReport where
  hardDeleted : Int
  blobsUnlinked : Int
  hitRunCap : Bool
  deriving DecidableEq

/-- The clock and the mode a sweep has started with. -/
structure SweepInfo where
  now : Int
  deadline : Int
  bypassWindows : Bool
  deriving DecidableEq

structure RestoreOutcome where
  succeeded : List String
  failed : List (String × String)
  deriving DecidableEq

/-- The holder of the mutex of `GcManager`. -/
inductive Gc
  | idle
  | stage2 (info : SweepInfo) (candidates : List Cand) (report : GcRunReport)
  | stage3 (info : SweepInfo) (uris : List String) (report : GcRunReport)
  /-- `Unlink` has returned Ok for the uri, its row is still to be updated. -/
  | marking (info : SweepInfo) (uri : String) (uris : List String) (report : GcRunReport)
  | restoring (docIds : List String) (out : RestoreOutcome)
  | restoreFound (fileHash docId : String) (docIds : List String) (out : RestoreOutcome)
  deriving DecidableEq

structure State where
  cat : Tables
  gc : Gc
  lastReport : Option GcRunReport
  lastGcAt : Option Int

def State.init (cat : Tables) : State := ⟨cat, .idle, none, none⟩

inductive Act
  /-- The write path: a new file row, a soft delete. -/
  | insertFile (f : FileLocation)
  | softDelete (fileHash : String) (now : Int)
  | incrementRef (fileHash nsId docId : String)
  | decrementRef (fileHash nsId docId : String)
  | enqueueBlob (blobUri fileHash : String) (now : Int)
  /-- `RunOnce`, or `Purge` when the windows are bypassed, up to the candidates. -/
  | sweep (now : Int) (bypassWindows : Bool)
  | hardDelete (clock eligibleClock queuedClock : Int)
  | stage2Fault
  | selectBlobs
  | unlink (clock : Int) (ok : Bool)
  | markUnlinked
  | markFault
  | sweepEnd (now : Int)
  | restore (docIds : List String)
  | restoreLookup (found : Option ContentRef)
  | restoreRefs (committed : Bool)
  | restoreEnd

/-- The loop of Stage 2 stops at the cap or at the deadline. -/
def stopped (cfg : GcConfig) (info : SweepInfo) (done clock : Int) : Bool :=
  decide (cfg.maxPurgePerRun ≤ done) || decide (info.deadline ≤ clock)

def hardDeleteStep (cfg : GcConfig) (s : State) (clock eligibleClock queuedClock : Int) : Option State :=
  match s.gc with
  | .stage2 info (cand :: rest) report =>
    if stopped cfg info report.hardDeleted clock then
      some { s with gc := .stage2 info [] { report with hitRunCap := true } }
    else
      let report' := { report with hardDeleted := report.hardDeleted + 1 }
      if cfg.dryRun then some { s with gc := .stage2 info rest report' }
      else
        let eligibleAt := if info.bypassWindows then eligibleClock else eligibleClock + daysToMs cfg.blobGcRetentionDays
        some { s with cat := hardDelete cand queuedClock eligibleAt s.cat, gc := .stage2 info rest report' }
  | _ => none

def unlinkStep (cfg : GcConfig) (s : State) (clock : Int) (ok : Bool) : Option State :=
  match s.gc with
  | .stage3 info (uri :: rest) report =>
    if stopped cfg info report.blobsUnlinked clock then
      some { s with gc := .stage3 info [] { report with hitRunCap := true } }
    else if cfg.dryRun then
      some { s with gc := .stage3 info rest { report with blobsUnlinked := report.blobsUnlinked + 1 } }
    else if ok then some { s with gc := .marking info uri rest report }
    else some { s with gc := .stage3 info rest report }
  | _ => none

/-- The lookup of `Restore`: any reference of the document, or none when there is none. -/
def restoreLookupStep (s : State) (found : Option ContentRef) : Option State :=
  match s.gc with
  | .restoring (docId :: docIds) out =>
    match found with
    | some r =>
      if r ∈ s.cat.refs ∧ r.docId = docId then
        if r.fileHash = "" then
          some { s with gc := .restoring docIds { out with failed := out.failed ++ [(docId, "CX_ERR_GC_DOC_NOT_FOUND")] } }
        else some { s with gc := .restoreFound r.fileHash docId docIds out }
      else none
    | none =>
      if s.cat.refs.all (fun r => r.docId != docId) then
        some { s with gc := .restoring docIds { out with failed := out.failed ++ [(docId, "CX_ERR_GC_DOC_NOT_FOUND")] } }
      else none
  | _ => none

def step (cfg : GcConfig) (s : State) : Act → Option State
  | .insertFile f => (insertRow FileLocation.fileHash f s.cat.files).map fun files =>
      { s with cat := { s.cat with files } }
  | .softDelete fileHash now =>
    some { s with cat := { s.cat with
      files := updateWhere (fun f => f.fileHash == fileHash)
        (fun f => { f with status := .deleted, deletedAt := some now }) s.cat.files } }
  | .incrementRef fileHash nsId docId => some { s with cat := incrementRef fileHash nsId docId s.cat }
  | .decrementRef fileHash nsId docId => some { s with cat := (decrementRef fileHash nsId docId s.cat).getD s.cat }
  | .enqueueBlob blobUri fileHash now =>
    if s.gc = .idle then
      some { s with cat := { s.cat with
        queue := enqueueBlob ⟨blobUri, fileHash, now, now + daysToMs cfg.blobGcRetentionDays, now, .pending⟩ s.cat.queue } }
    else none
  | .sweep now bypass =>
    if s.gc = .idle then
      some { s with
        gc := .stage2 ⟨now, now + cfg.maxRunDurationMinutes * 60 * 1000, bypass⟩
          (stage2Candidates (stage2Cutoff cfg now bypass) s.cat) ⟨0, 0, false⟩ }
    else none
  | .hardDelete clock eligibleClock queuedClock => hardDeleteStep cfg s clock eligibleClock queuedClock
  | .stage2Fault =>
    match s.gc with
    | .stage2 _ _ _ => some { s with gc := .idle }
    | _ => none
  | .selectBlobs =>
    match s.gc with
    | .stage2 info [] report =>
      some { s with gc := .stage3 info (stage3Uris info.now info.bypassWindows s.cat) report }
    | _ => none
  | .unlink clock ok => unlinkStep cfg s clock ok
  | .markUnlinked =>
    match s.gc with
    | .marking info uri uris report =>
      some { s with
        cat := markUnlinked uri s.cat
        gc := .stage3 info uris { report with blobsUnlinked := report.blobsUnlinked + 1 } }
    | _ => none
  | .markFault =>
    match s.gc with
    | .marking _ _ _ _ => some { s with gc := .idle }
    | _ => none
  | .sweepEnd now =>
    match s.gc with
    | .stage3 _ [] report => some { s with gc := .idle, lastReport := some report, lastGcAt := some now }
    | _ => none
  | .restore docIds => if s.gc = .idle then some { s with gc := .restoring docIds ⟨[], []⟩ } else none
  | .restoreLookup found => restoreLookupStep s found
  | .restoreRefs committed =>
    match s.gc with
    | .restoreFound fileHash docId docIds out =>
      if committed then
        some { s with
          cat := restoreRefs fileHash docId s.cat
          gc := .restoring docIds { out with succeeded := out.succeeded ++ [docId] } }
      else
        some { s with gc := .restoring docIds { out with failed := out.failed ++ [(docId, "CX_ERR_GC_INTERNAL")] } }
    | _ => none
  | .restoreEnd =>
    match s.gc with
    | .restoring [] _ => some { s with gc := .idle }
    | _ => none

def hardDeletes (cfg : GcConfig) (s : State) : Act → Option Cand
  | .hardDelete clock _ _ =>
    match s.gc with
    | .stage2 info (cand :: _) report => if stopped cfg info report.hardDeleted clock || cfg.dryRun then none else some cand
    | _ => none
  | _ => none

def unlinks (cfg : GcConfig) (s : State) : Act → Option String
  | .unlink clock _ =>
    match s.gc with
    | .stage3 info (uri :: _) report => if stopped cfg info report.blobsUnlinked clock || cfg.dryRun then none else some uri
    | _ => none
  | _ => none

end Cortrix.Catalog
