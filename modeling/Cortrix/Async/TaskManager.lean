import Cortrix.Lib.Run
import Cortrix.Lib.Table

/-!
# The tasks table and TaskManager

A row of `tasks` is a `TaskInfo` with the resolved input path that is cached with it. An operation of `TaskManager`
holds `mutex_` and is a function on the table with what it reports; its SQLite statements succeed. Timestamps are
milliseconds: the ISO 8601 texts of the source compare as they do. An empty text is the `NULL` of a nullable column.
-/

namespace Cortrix.Async
open Lib

/-! ## Data -/

inductive TaskStatus
  | queued | processing | cancelling | completed | failed | cancelled
  deriving DecidableEq

/-- `NOT IN ('completed','failed','cancelled')`. -/
def TaskStatus.live : TaskStatus → Bool
  | .queued => true
  | .processing => true
  | .cancelling => true
  | .completed => false
  | .failed => false
  | .cancelled => false

/-- `NOT IN ('cancelled','cancelling','failed')`: a task that carries or has carried its submission. -/
def TaskStatus.carries : TaskStatus → Bool
  | .queued => true
  | .processing => true
  | .completed => true
  | .cancelling => false
  | .failed => false
  | .cancelled => false

def TaskStatus.str : TaskStatus → String
  | .queued => "queued"
  | .processing => "processing"
  | .cancelling => "cancelling"
  | .completed => "completed"
  | .failed => "failed"
  | .cancelled => "cancelled"

structure TaskInfo where
  taskId : String
  namespaceId : String
  filename : String
  filepath : String
  docId : String
  contentHash : String
  status : TaskStatus
  taskType : Int
  cancelRequested : Bool
  totalPages : Int
  processedPages : Int
  failedPages : List Int
  etaSeconds : Int
  currentPhase : String
  /-- -1 when unassigned. -/
  workerId : Int
  traceId : String
  errorCode : String
  errorMsg : String
  structuredData : String
  createdAt : Int
  updatedAt : Int
  startedAt : Option Int
  completedAt : Option Int
  metadataJson : String
  deriving DecidableEq

structure TaskRow extends TaskInfo where
  /-- The input path as resolved when the row was created; `none` for the SQL `NULL`. -/
  filepathCanonical : Option String

structure SubmitRequest where
  namespaceId : String
  filename : String
  filepath : String
  docId : String
  contentHash : String
  traceId : String
  metadataJson : String
  totalPages : Int
  taskType : Int
  deriving DecidableEq

inductive F42ErrorCode
  | taskNotFound | docProcessingInProgress | taskCancelling | storageFailed

structure F42Error where
  code : F42ErrorCode
  detail : String

abbrev Tasks := List TaskRow

abbrev Reply (α : Type) := Tasks × Except F42Error α

/-! ## Rows by id -/

def rowById (taskId : String) (t : Tasks) : Option TaskRow := lookup (fun r => r.taskId) taskId t

/-- The probe after an update that changed no row: gone, or in a status that forbids it. -/
def conflict (taskId : String) (t : Tasks) : F42Error :=
  if (rowById taskId t).isSome then ⟨.docProcessingInProgress, taskId⟩ else ⟨.taskNotFound, taskId⟩

def rejectedTransitionStatus (taskId : String) (target : TaskStatus) (t : Tasks) : F42Error :=
  match rowById taskId t with
  | none => ⟨.taskNotFound, taskId⟩
  | some r => ⟨.docProcessingInProgress,
      "task " ++ taskId ++ " status=" ++ r.status.str ++ " cannot transition to " ++ target.str⟩

def statusIn (taskId : String) (allowed : TaskStatus → Bool) (r : TaskRow) : Bool :=
  r.taskId == taskId && allowed r.status

/-- `UPDATE .. WHERE task_id=? AND status ..`, which reports a conflict when it changed no row. -/
def guardedUpdate (taskId : String) (allowed : TaskStatus → Bool) (set : TaskRow → TaskRow)
    (reject : Tasks → F42Error) (t : Tasks) : Reply Unit :=
  if changes (statusIn taskId allowed) t = 0 then (t, .error (reject t))
  else (updateWhere (statusIn taskId allowed) set t, .ok ())

/-! ## Operations on one row -/

/-- The path identity stored with a row: `NULL` for no path, or one that does not resolve. -/
def canonicalInput (weaklyCanonical : String → Option String) (filepath : String) : Option String :=
  if filepath = "" then none else (weaklyCanonical filepath).filter (· != "")

/-- The row `CreateTask` inserts; `newId` is the ULID minted for a task without an id. -/
def newRow (weaklyCanonical : String → Option String) (newId : String) (now : Int) (task : TaskInfo) : TaskRow :=
  { task with
    taskId := if task.taskId = "" then newId else task.taskId
    createdAt := now
    updatedAt := now
    filepathCanonical := canonicalInput weaklyCanonical task.filepath }

def createTask (weaklyCanonical : String → Option String) (newId : String) (now : Int) (task : TaskInfo) (t : Tasks) :
    Reply TaskInfo :=
  match insertRow (fun r => r.taskId) (newRow weaklyCanonical newId now task) t with
  | some t' => (t', .ok (newRow weaklyCanonical newId now task).toTaskInfo)
  | none => (t, .error ⟨.storageFailed, "CreateTask step"⟩)

def getTask (taskId : String) (t : Tasks) : Except F42Error TaskInfo :=
  match rowById taskId t with
  | some r => .ok r.toTaskInfo
  | none => .error ⟨.taskNotFound, taskId⟩

def progressRow (task : TaskInfo) (now : Int) (r : TaskRow) : TaskRow :=
  { r with
    processedPages := task.processedPages
    totalPages := task.totalPages
    failedPages := task.failedPages
    etaSeconds := task.etaSeconds
    currentPhase := task.currentPhase
    workerId := if task.workerId < 0 then -1 else task.workerId
    updatedAt := now }

/-- `UpdateProgress`: not conditional on the status, which it leaves alone. -/
def updateProgress (task : TaskInfo) (now : Int) : Tasks → Reply Unit :=
  guardedUpdate task.taskId (fun _ => true) (progressRow task now) fun _ => ⟨.taskNotFound, task.taskId⟩

def markProcessing (taskId : String) (workerId : Int) (now : Int) : Tasks → Reply Unit :=
  guardedUpdate taskId (· == .queued)
    (fun r => { r with status := .processing, workerId, startedAt := some now, updatedAt := now }) (conflict taskId)

def inFlight (s : TaskStatus) : Bool := s == .processing || s == .cancelling

def markCompleted (taskId docId : String) (now : Int) : Tasks → Reply Unit :=
  guardedUpdate taskId inFlight
    (fun r => { r with status := .completed, docId, completedAt := some now, updatedAt := now })
    (rejectedTransitionStatus taskId .completed)

def markFailed (taskId errorCode errorMsg structuredData : String) (now : Int) : Tasks → Reply Unit :=
  guardedUpdate taskId inFlight
    (fun r => { r with status := .failed, errorCode, errorMsg, structuredData, completedAt := some now, updatedAt := now })
    (rejectedTransitionStatus taskId .failed)

def markCancelled (taskId : String) (now : Int) : Tasks → Reply Unit :=
  guardedUpdate taskId (fun s => s == .queued || s == .cancelling)
    (fun r => { r with status := .cancelled, completedAt := some now, updatedAt := now })
    (rejectedTransitionStatus taskId .cancelled)

/-- The status a cancel request leads to; the other statuses refuse it. -/
def cancelTarget : TaskStatus → Option TaskStatus
  | .queued => some .cancelled
  | .processing => some .cancelling
  | .cancelling => none
  | .completed => none
  | .failed => none
  | .cancelled => none

def cancelRow (target : TaskStatus) (now : Int) (r : TaskRow) : TaskRow :=
  { r with
    cancelRequested := true
    status := target
    completedAt := if target = .cancelled then some now else r.completedAt
    updatedAt := now }

/-- `RequestCancel`: read, then written without a condition on the status; both under the lock. -/
def requestCancel (taskId : String) (now : Int) (t : Tasks) : Reply TaskInfo :=
  match rowById taskId t with
  | none => (t, .error ⟨.taskNotFound, taskId⟩)
  | some r =>
    match cancelTarget r.status with
    | some target =>
      (updateWhere (fun r => r.taskId == taskId) (cancelRow target now) t, .ok (cancelRow target now r).toTaskInfo)
    | none => (t, .error ⟨.taskCancelling, "task " ++ taskId ++ " status=" ++ r.status.str⟩)

/-! ## Scheduler support -/

def recentTasks (namespaceId docId : String) (taskType windowSeconds nowSecs : Int) (t : Tasks) : Tasks :=
  if docId = "" then []
  else t.filter fun r =>
    r.namespaceId == namespaceId && r.docId == docId && r.taskType == taskType &&
      decide ((nowSecs - windowSeconds) * 1000 ≤ r.createdAt) && r.status.carries

/-- `ORDER BY .. LIMIT 1`: `out` is a row that no other row precedes; rows that tie come in any order. -/
def limitOne (before : TaskRow → TaskRow → Bool) (rows : Tasks) : Option TaskInfo → Bool
  | none => rows.isEmpty
  | some task => rows.any fun r => r.toTaskInfo == task && rows.all fun r' => !before r' r

/-- `FindRecentTaskByDocId` may return `out`: the newest debounce candidate of the window. -/
def findRecentTaskByDocId (namespaceId docId : String) (taskType windowSeconds nowSecs : Int) (t : Tasks)
    (out : Option TaskInfo) : Bool :=
  limitOne (fun r r' => decide (r'.createdAt < r.createdAt))
    (recentTasks namespaceId docId taskType windowSeconds nowSecs t) out

/-- `TryClaimDebounceMerge`: the touch and the read-back under one lock. -/
def tryClaimDebounceMerge (taskId : String) (now : Int) (t : Tasks) : Reply TaskInfo :=
  match guardedUpdate taskId TaskStatus.carries (fun r => { r with updatedAt := now }) (conflict taskId) t with
  | (t', .ok _) => (t', getTask taskId t')
  | (t', .error e) => (t', .error e)

def refreshRow (req : SubmitRequest) (now : Int) (r : TaskRow) : TaskRow :=
  { r with
    contentHash := req.contentHash
    filepath := req.filepath
    totalPages := req.totalPages
    status := .queued
    processedPages := 0
    failedPages := []
    etaSeconds := -1
    currentPhase := ""
    workerId := -1
    errorCode := ""
    errorMsg := ""
    structuredData := ""
    startedAt := none
    completedAt := none
    cancelRequested := false
    updatedAt := now }

/-- The critical section of `UpdateTaskForDebounce`; the read of the row that it returns is another one (`getTask`). -/
def refreshQueued (taskId : String) (req : SubmitRequest) (now : Int) : Tasks → Reply Unit :=
  guardedUpdate taskId (· == .queued) (refreshRow req now) (conflict taskId)

/-- The rows a dispatch ranges over; a row without a document is never excluded. -/
def queuedTasksExcluding (activeDocs : List (String × String)) (t : Tasks) : Tasks :=
  t.filter fun r =>
    r.status == .queued && activeDocs.all fun d => r.docId == "" || !(r.namespaceId == d.1 && r.docId == d.2)

def selectOldestQueuedTaskExcluding (activeDocs : List (String × String)) (t : Tasks) (out : Option TaskInfo) : Bool :=
  limitOne (fun r r' => decide (r.createdAt < r'.createdAt)) (queuedTasksExcluding activeDocs t) out

/-! ## Sweeps -/

/-- An update of all rows in `processing` that meet a condition on their timestamps; reports their number. -/
def sweepProcessing (due : TaskRow → Bool) (set : TaskRow → TaskRow) (t : Tasks) : Tasks × Nat :=
  (updateWhere (fun r => r.status == .processing && due r) set t, changes (fun r => r.status == .processing && due r) t)

def sweepFailed (errorCode errorMsg : String) (now : Int) (r : TaskRow) : TaskRow :=
  { r with status := .failed, errorCode, errorMsg, completedAt := some now, updatedAt := now }

def zombieCutoff (nowUnix zombieHours : Int) : Int := (nowUnix - zombieHours * 3600) * 1000

def sweepZombies (nowUnix zombieHours now : Int) : Tasks → Tasks × Nat :=
  sweepProcessing (fun r => decide (r.updatedAt < zombieCutoff nowUnix zombieHours))
    (sweepFailed "CX_ERR_ZOMBIE_TASK_CLEANUP" "Worker presumed crashed." now)

def sweepTimedOut (nowUnix timeoutSeconds now : Int) : Tasks → Tasks × Nat :=
  sweepProcessing (fun r => r.startedAt.any fun at_ => decide (at_ < (nowUnix - timeoutSeconds) * 1000))
    (sweepFailed "CX_ERR_TASK_TIMEOUT" "Task exceeded processing timeout." now)

def requeueStaleProcessing (nowUnix zombieHours now : Int) : Tasks → Tasks × Nat :=
  sweepProcessing (fun r => decide (zombieCutoff nowUnix zombieHours ≤ r.updatedAt))
    (fun r => { r with status := .queued, workerId := -1, startedAt := none, updatedAt := now })

/-! ## Inputs -/

/-- `ReleaseInputIfUnreferenced`, up to the call of `release`: no live row but the excluded one has this identity, and
none has an unknown one. -/
def releaseInputIfUnreferenced (canonicalPath excludeTaskId : String) (t : Tasks) : Bool :=
  canonicalPath != "" &&
    !t.any (fun r => r.filepathCanonical == some canonicalPath && r.taskId != excludeTaskId && r.status.live) &&
    !t.any (fun r => r.filepathCanonical == none && r.filepath != "" && r.taskId != excludeTaskId && r.status.live)

/-! ## What a conditional update does -/

variable {taskId : String} {allowed : TaskStatus → Bool} {set : TaskRow → TaskRow} {reject : Tasks → F42Error}
  {t : Tasks} {r : TaskRow}

theorem statusIn_iff : statusIn taskId allowed r = true ↔ r.taskId = taskId ∧ allowed r.status = true := by
  simp [statusIn]

theorem guardedUpdate_cases (taskId : String) (allowed : TaskStatus → Bool) (set : TaskRow → TaskRow)
    (reject : Tasks → F42Error) (t : Tasks) :
    (∃ r ∈ t, r.taskId = taskId ∧ allowed r.status = true ∧
      guardedUpdate taskId allowed set reject t = (updateWhere (statusIn taskId allowed) set t, .ok ())) ∨
    (∀ r ∈ t, r.taskId = taskId → allowed r.status = false) ∧
      guardedUpdate taskId allowed set reject t = (t, .error (reject t)) := by
  unfold guardedUpdate
  by_cases hzero : changes (statusIn taskId allowed) t = 0
  · refine .inr ⟨fun r hr hid => ?_, by rw [if_pos hzero]⟩
    by_contra hall
    have := changes_eq_zero.mp hzero r hr
    rw [statusIn_iff.mpr ⟨hid, Bool.eq_true_of_not_eq_false hall⟩] at this
    exact absurd this (by simp)
  · obtain ⟨r, hr, hg⟩ := changes_pos.mp (Nat.pos_of_ne_zero hzero)
    obtain ⟨hid, hall⟩ := statusIn_iff.mp hg
    exact .inl ⟨r, hr, hid, hall, by rw [if_neg hzero]⟩

theorem set_mem_updateWhere (hr : r ∈ t) (hid : r.taskId = taskId) (hall : allowed r.status = true) :
    set r ∈ updateWhere (statusIn taskId allowed) set t := by
  have hmem := mem_updateWhere_of_mem (p := statusIn taskId allowed) (f := set) hr
  rwa [if_pos (statusIn_iff.mpr ⟨hid, hall⟩)] at hmem

theorem createTask_cases (wc : String → Option String) (newId : String) (now : Int) (task : TaskInfo) (t : Tasks) :
    (∀ r ∈ t, r.taskId ≠ (newRow wc newId now task).taskId) ∧ createTask wc newId now task t =
      (t ++ [newRow wc newId now task], .ok (newRow wc newId now task).toTaskInfo) ∨
    (∃ r ∈ t, r.taskId = (newRow wc newId now task).taskId) ∧
      createTask wc newId now task t = (t, .error ⟨.storageFailed, "CreateTask step"⟩) := by
  unfold createTask
  cases hi : insertRow (fun r : TaskRow => r.taskId) (newRow wc newId now task) t with
  | some t' =>
    obtain ⟨hnew, rfl⟩ := insertRow_eq_some.mp hi
    exact .inl ⟨hnew, rfl⟩
  | none =>
    refine .inr ⟨?_, rfl⟩
    by_contra hno
    have hsome := insertRow_eq_some.mpr ⟨fun r hr e => hno ⟨r, hr, e⟩, rfl⟩
    rw [hi] at hsome
    cases hsome

theorem rowById_eq_some (h : rowById taskId t = some r) : r ∈ t ∧ r.taskId = taskId := lookup_eq_some h

theorem rowById_of_mem (hkey : Keyed (fun r => r.taskId) t) (hr : r ∈ t) : rowById r.taskId t = some r :=
  hkey.lookup_of_mem hr

theorem getTask_eq_ok {task : TaskInfo} (h : getTask taskId t = .ok task) :
    ∃ r ∈ t, r.taskId = taskId ∧ r.toTaskInfo = task := by
  unfold getTask at h
  split at h <;> cases h
  rename_i r hr
  obtain ⟨hmem, hid⟩ := rowById_eq_some hr
  exact ⟨r, hmem, hid, rfl⟩

theorem tryClaimDebounceMerge_eq_ok {now : Int} {t' : Tasks} {task : TaskInfo}
    (h : tryClaimDebounceMerge taskId now t = (t', .ok task)) :
    (∃ r ∈ t, r.taskId = taskId ∧ r.status.carries = true) ∧ ∃ r ∈ t', r.taskId = taskId ∧ r.toTaskInfo = task := by
  unfold tryClaimDebounceMerge at h
  rcases guardedUpdate_cases taskId TaskStatus.carries (fun r => { r with updatedAt := now }) (conflict taskId) t with
    ⟨r, hr, hid, hc, he⟩ | ⟨-, he⟩ <;> simp only [he] at h
  · obtain ⟨rfl, hget⟩ := Prod.mk.inj h
    exact ⟨⟨r, hr, hid, hc⟩, getTask_eq_ok hget⟩
  · cases (Prod.mk.inj h).2

theorem requestCancel_cases (hkey : Keyed (fun r => r.taskId) t) (taskId : String) (now : Int) :
    (∃ r ∈ t, ∃ target, r.taskId = taskId ∧ cancelTarget r.status = some target ∧ requestCancel taskId now t =
      (updateWhere (fun r => r.taskId == taskId) (cancelRow target now) t, .ok (cancelRow target now r).toTaskInfo)) ∨
    (∀ r ∈ t, r.taskId = taskId → cancelTarget r.status = none) ∧ ∃ e, requestCancel taskId now t = (t, .error e) := by
  unfold requestCancel
  cases hrow : rowById taskId t with
  | none => exact .inr ⟨fun r hr hid => absurd hid (lookup_eq_none.mp hrow r hr), _, rfl⟩
  | some r =>
    obtain ⟨hr, hid⟩ := rowById_eq_some hrow
    cases htarget : cancelTarget r.status with
    | some target => exact .inl ⟨r, hr, target, hid, htarget, by simp [htarget]⟩
    | none =>
      refine .inr ⟨fun r' hr' hid' => ?_, ⟨_, by simp [htarget]; rfl⟩⟩
      rw [hkey.eq_of_key hr' hr (hid'.trans hid.symm)]
      exact htarget

end Cortrix.Async
