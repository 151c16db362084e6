import Cortrix.Common.Status
import Cortrix.Lib.Coalesce
import Cortrix.Spc.SpcTaskQueue
import Cortrix.Store.Documents

/-!
# The importer of a watched directory

`DirectoryImporter` on the store of its namespace: a batch of file events is merged by path, and each path is then
processed or deleted.
-/

namespace Cortrix.Connector
open Lib
open Cortrix.Store.Documents (Doc DocStatus live older)
open Cortrix.Spc (SPCPriority)

inductive FileEventType
  | kCreated
  | kModified
  | kDeleted
  | kRenamed
  deriving DecidableEq

structure FileEvent where
  type : FileEventType
  path : String
  isDirectory : Bool := false
  deriving DecidableEq

/-! ## The store of the namespace -/

/-- A row of `documents` as the importer writes and reads it. -/
structure CortrixDoc extends Doc where
  sourceRef : String := ""
  contentHash : String := ""
  fileSize : Int := 0
  mimeType : String := ""
  title : String := ""
  processingLevel : Int := 3

structure CortrixBlock where
  blockId : Nat
  docId : String

def CortrixDoc.isVersionOf (sourceType sourcePath : String) (d : CortrixDoc) : Bool :=
  d.sourceType == sourceType && d.sourcePath == sourcePath && live d.toDoc

def newer (best : Option CortrixDoc) (d : CortrixDoc) : Option CortrixDoc :=
  match best with
  | none => some d
  | some b => if older b.toDoc d.toDoc then some d else some b

/-- `doc_find_by_source`: the newest live row; `none` is the code -2. -/
def docFindBySource (sourceType sourcePath : String) (t : List CortrixDoc) : Option CortrixDoc :=
  (t.filter (CortrixDoc.isVersionOf sourceType sourcePath)).foldl newer none

def CortrixDoc.key (d : CortrixDoc) : String := d.docId

/-- `doc_create`; `none` is the code -1. -/
def docCreate (d : CortrixDoc) (t : List CortrixDoc) : Option (List CortrixDoc) := insertRow CortrixDoc.key d t

def setStatus (status : DocStatus) (d : CortrixDoc) : CortrixDoc := { d with status, errorMessage := "" }

def docUpdateStatus (docId : String) (status : DocStatus) (t : List CortrixDoc) : List CortrixDoc :=
  updateWhere (fun d => d.docId == docId && live d.toDoc) (setStatus status) t

/-! ## The SPC manager -/

structure SPCTask extends Spc.SPCTask where
  contentHash : String
  mimeType : String
  isUpdate : Bool := false
  oldDocId : String := ""

inductive SpcCall
  | submit (task : SPCTask)
  | cancelQueuedVersions (namespaceName sourceType sourcePath : String)

/-! ## The state -/

structure ImportStats where
  imported : Int := 0
  skippedUnchanged : Int := 0
  skippedError : Int := 0
  deleted : Int := 0
  updated : Int := 0

/-- The store, the vector points and the blobs of the namespace, the calls made to the SPC manager, and the counters. -/
structure State where
  documents : List CortrixDoc
  blocks : List CortrixBlock := []
  /-- The block ids of the points not deleted. -/
  points : List Nat := []
  /-- The documents with a blob. -/
  blobs : List String := []
  spc : List SpcCall := []
  stats : ImportStats := {}

namespace State
variable (s : State)

/-- `doc_delete`: the blocks of the document and the row go; `none` is the code -2. -/
def docDelete (docId : String) : Option State :=
  if changes (fun d => d.docId == docId) s.documents = 0 then none
  else
    some { s with
      blocks := deleteWhere (fun b => b.docId == docId) s.blocks
      documents := deleteWhere (fun d => d.docId == docId) s.documents }

def blockCountByDoc (docId : String) : Nat := changes (fun b => b.docId == docId) s.blocks

def blockGetByDoc (docId : String) : List CortrixBlock := s.blocks.filter fun b => b.docId == docId

def submit (task : SPCTask) : State := { s with spc := s.spc ++ [.submit task] }

def cancelQueuedVersions (namespaceName sourceType sourcePath : String) : State :=
  { s with spc := s.spc ++ [.cancelQueuedVersions namespaceName sourceType sourcePath] }

def countImported : State := { s with stats := { s.stats with imported := s.stats.imported + 1 } }

def countSkippedUnchanged : State :=
  { s with stats := { s.stats with skippedUnchanged := s.stats.skippedUnchanged + 1 } }

def countSkippedError : State := { s with stats := { s.stats with skippedError := s.stats.skippedError + 1 } }

def countDeleted : State := { s with stats := { s.stats with deleted := s.stats.deleted + 1 } }

def countUpdated : State := { s with stats := { s.stats with updated := s.stats.updated + 1 } }

end State

/-! ## The surroundings -/

/-- What the importer finds around it: the files, the SPC manager, and what the store draws for a new row. -/
structure Env where
  /-- `ResolvePath`; `none` when the path cannot be resolved. -/
  resolvePath : String → Option String
  /-- `ComputeFileHash`; `none` when the file cannot be read. -/
  computeFileHash : String → Option String
  getFileSize : String → Int
  detectMimeType : String → String
  getBasename : String → String
  /-- The namespace can be acquired. -/
  acquires : Bool
  /-- `HasActiveTask`, after the calls made so far. -/
  hasActiveTask : List SpcCall → String → Bool
  mintId : String → String
  createdAt : String → String

/-- `WatchDirConfig`, and the filter made of it. -/
structure Config where
  dataDir : String
  namespaceName : String
  shouldImport : String → Bool

variable (env : Env) (config : Config)

/-- `MakeWatchedDocument`, with what `doc_create` adds. -/
def makeWatchedDocument (effectivePath contentHash : String) : CortrixDoc where
  docId := env.mintId effectivePath
  sourceType := "watch_dir"
  sourcePath := effectivePath
  status := .pending
  errorMessage := ""
  createdAt := env.createdAt effectivePath
  deletedAt := none
  deletedFromStatus := none
  sourceRef := config.dataDir
  contentHash := contentHash
  fileSize := env.getFileSize effectivePath
  mimeType := env.detectMimeType effectivePath
  title := env.getBasename effectivePath
  processingLevel := 3

def makeTask (docId path contentHash mimeType : String) (priority : SPCPriority) : SPCTask where
  docId := docId
  namespaceName := config.namespaceName
  sourceType := "watch_dir"
  sourcePath := path
  priority := priority
  contentHash := contentHash
  mimeType := mimeType

/-! ## A file -/

def unfinished (d : CortrixDoc) : Bool := d.status == .pending || d.status == .error || d.status == .processing

def importNew (path hash : String) (s : State) : Status × State :=
  let doc := makeWatchedDocument env config path hash
  match docCreate doc s.documents with
  | none => (⟨.internal, "doc_create failed"⟩, s.countSkippedError)
  | some t =>
    (.okStatus, ({ s with documents := t }.submit (makeTask config doc.docId path hash doc.mimeType .kP2)).countImported)

/-- A version that was never finished is processed again. -/
def reenqueue (path hash : String) (existing : CortrixDoc) (s : State) : Status × State :=
  (.okStatus,
    ((s.cancelQueuedVersions config.namespaceName "watch_dir" path).submit
      (makeTask config existing.docId path hash existing.mimeType .kP2)).countImported)

def importVersion (path hash : String) (existing : CortrixDoc) (s : State) : Status × State :=
  let s := s.cancelQueuedVersions config.namespaceName "watch_dir" path
  let version := makeWatchedDocument env config path hash
  match docCreate version s.documents with
  | none => (⟨.internal, "doc_create failed"⟩, s.countSkippedError)
  | some t =>
    (.okStatus,
      ({ s with documents := t }.submit
        { makeTask config version.docId path hash version.mimeType .kP1 with
          isUpdate := true
          oldDocId := existing.docId }).countUpdated)

def importUnchanged (path hash : String) (existing : CortrixDoc) (s : State) : Status × State :=
  if unfinished existing && env.hasActiveTask s.spc existing.docId then (.okStatus, s.countSkippedUnchanged)
  else
    let holdsAttempt := unfinished existing && decide (0 < s.blockCountByDoc existing.docId)
    if unfinished existing && !holdsAttempt then reenqueue config path hash existing s
    else if !unfinished existing then (.okStatus, s.countSkippedUnchanged)
    else importVersion env config path hash existing s

def processFile (filePath : String) (s : State) : Status × State :=
  match env.resolvePath filePath with
  | none => (⟨.internal, "path resolution failed"⟩, s.countSkippedError)
  | some path =>
    if !env.acquires then (⟨.notFound, "namespace not found"⟩, s.countSkippedError)
    else
      match env.computeFileHash path with
      | none => (⟨.internal, "hash computation failed"⟩, s.countSkippedError)
      | some hash =>
        match docFindBySource "watch_dir" path s.documents with
        | none => importNew env config path hash s
        | some existing =>
          if existing.contentHash = hash then importUnchanged env config path hash existing s
          else importVersion env config path hash existing s

/-! ## A deletion -/

/-- The points of the blocks of a document are marked deleted. -/
def State.markDelete (s : State) (docId : String) : State :=
  { s with points := s.points.filter fun p => !(s.blockGetByDoc docId).any fun b => b.blockId == p }

/-- What one pass does to the version it found before it deletes it; `first` is the first pass. -/
def markVersion (path : String) (first : Bool) (d : CortrixDoc) (s : State) : State :=
  let s := if first then s.cancelQueuedVersions config.namespaceName "watch_dir" path else s
  { s with documents := docUpdateStatus d.docId .deleting s.documents }.markDelete d.docId

section Deleted
variable {config} {path : String} {first : Bool} {d : CortrixDoc} {s s' : State}

theorem markVersion_documents :
    (markVersion config path first d s).documents = docUpdateStatus d.docId .deleting s.documents := by
  unfold markVersion
  split <;> rfl

theorem docDelete_documents {docId : String} (h : s.docDelete docId = some s') :
    s'.documents = deleteWhere (fun d => d.docId == docId) s.documents := by
  unfold State.docDelete at h
  split at h
  · cases h
  · cases h
    rfl

theorem docDelete_markVersion (h : (markVersion config path first d s).docDelete d.docId = some s') :
    s'.documents = deleteWhere (fun r => r.docId == d.docId) s.documents := by
  rw [docDelete_documents h, markVersion_documents]
  apply deleteWhere_updateWhere
  intro r hr
  have hid := (Bool.and_eq_true_iff.mp hr).1
  exact ⟨hid, hid⟩

theorem newer_eq_some {best : Option CortrixDoc} {x : CortrixDoc} (h : newer best x = some d) :
    d = x ∨ best = some d := by
  unfold newer at h
  rcases best with - | b
  · exact .inl (Option.some.inj h).symm
  · dsimp only at h
    split at h
    · exact .inl (Option.some.inj h).symm
    · exact .inr h

theorem mem_of_foldl_newer {t : List CortrixDoc} (h : t.foldl newer none = some d) : d ∈ t := by
  induction t using List.reverseRecOn with
  | nil => cases h
  | append_singleton t x ih =>
    rw [List.foldl_append] at h
    rcases newer_eq_some h with rfl | h
    · simp
    · exact List.mem_append_left _ (ih h)

theorem docFindBySource_eq_some {sourceType : String} {t : List CortrixDoc}
    (h : docFindBySource sourceType path t = some d) : d ∈ t ∧ d.isVersionOf sourceType path = true :=
  List.mem_filter.mp (mem_of_foldl_newer h)

theorem length_versions_lt {t : List CortrixDoc} (h : docFindBySource "watch_dir" path t = some d) :
    ((deleteWhere (fun r => r.docId == d.docId) t).filter (CortrixDoc.isVersionOf "watch_dir" path)).length <
      (t.filter (CortrixDoc.isVersionOf "watch_dir" path)).length := by
  obtain ⟨hmem, hver⟩ := docFindBySource_eq_some h
  unfold deleteWhere
  rw [List.filter_comm]
  apply List.length_filter_lt_length_iff_exists.mpr
  exact ⟨d, List.mem_filter.mpr ⟨hmem, hver⟩, by simp⟩

end Deleted

/-- The passes of `HandleFileDeletion`, each of which deletes the newest version left; the number of versions removed. -/
def deletionLoop (path : String) (removed : Nat) (lastRemoved : String) (s : State) : Status × Nat × State :=
  match _hfind : docFindBySource "watch_dir" path s.documents with
  | none => (.okStatus, removed, s)
  | some doc =>
    if doc.docId = lastRemoved then
      (⟨.internal, "doc_delete left the row in place during cascade"⟩, removed, s)
    else
      match hdel : (markVersion config path (removed == 0) doc s).docDelete doc.docId with
      | none =>
        (⟨.internal, "doc_delete failed during cascade"⟩, removed, markVersion config path (removed == 0) doc s)
      | some s' => deletionLoop path (removed + 1) doc.docId { s' with blobs := s'.blobs.filter fun b => b != doc.docId }
termination_by (s.documents.filter (CortrixDoc.isVersionOf "watch_dir" path)).length
decreasing_by
  show (s'.documents.filter _).length < _
  rw [docDelete_markVersion hdel]
  exact length_versions_lt _hfind

def handleFileDeletion (filePath : String) (s : State) : Status × State :=
  if !env.acquires then (⟨.notFound, "namespace not found"⟩, s)
  else
    match deletionLoop config filePath 0 "" s with
    | (status, removed, s) =>
      -- an error leaves the method, and one file counts once however many versions it had
      if !status.isOk || removed == 0 then (status, s) else (status, s.countDeleted)

/-! ## A batch of events -/

/-- What becomes of the merged type of a path at a further event. -/
def mergeType (curr : FileEventType) : Option FileEventType → Option FileEventType
  | none => some curr
  | some prev =>
    match prev, curr with
    -- a file that came and went
    | .kCreated, .kDeleted => none
    | .kCreated, .kModified => some .kCreated
    | .kModified, .kModified => some .kModified
    | .kModified, .kDeleted => some .kDeleted
    | _, curr => some curr

def Config.takes (ev : FileEvent) : Bool := !ev.isDirectory && config.shouldImport ev.path

def mergeEvents (events : List FileEvent) : List (String × FileEventType) :=
  coalesce FileEvent.path (fun ev => mergeType ev.type) (events.filter config.takes)

def processMerged (s : State) (e : String × FileEventType) : State :=
  match e.2 with
  | .kCreated => (processFile env config e.1 s).2
  | .kModified => (processFile env config e.1 s).2
  | .kDeleted => (handleFileDeletion env config e.1 s).2
  | .kRenamed => s

/-- `HandleFileEvents`, when the map of the merged events is walked in the order `merged`. -/
def handleFileEvents (merged : List (String × FileEventType)) (s : State) : State :=
  merged.foldl (processMerged env config) s

end Cortrix.Connector
