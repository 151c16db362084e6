import Cortrix.Async.TaskStatusMachine

/-!
# TaskScheduler, WorkerPool and the release of inputs

One process: submitters in `Enqueue`, workers in `WorkerLoop`, cancel requests and sweeps. `Sched` is the place in
`Enqueue` or `Dequeue` of the thread that holds the scheduler's `mutex_`; the calls into `TaskManager` are separate
steps, so that operations which do not take that mutex come in between.
-/

namespace Cortrix.Async.Scheduler
open Lib

/-! ## The file system -/

/-- What the task system knows of the file system: path resolution, and the directory of the inputs it owns. -/
structure Env where
  weaklyCanonical : String → Option String
  parentPath : String → String
  managedDir : String
  weaklyCanonical_empty : ∀ path, weaklyCanonical "" = some path → path = ""

/-- `ReleaseManagedPath`: the resolved path it removes. -/
def releaseManagedPath (env : Env) (filepath excludeTaskId : String) (t : Tasks) : Option String :=
  if env.managedDir = "" ∨ filepath = "" then none
  else
    match env.weaklyCanonical env.managedDir, env.weaklyCanonical filepath with
    | some dir, some path =>
      if env.parentPath path = dir ∧ releaseInputIfUnreferenced path excludeTaskId t = true then some path else none
    | _, _ => none

/-! ## State -/

inductive EnqueueDisposition
  | created | merged | refreshed
  deriving DecidableEq

structure Release where
  filepath : String
  excludeTaskId : String
  deriving DecidableEq

/-- The holder of the scheduler's mutex. -/
inductive Sched
  | idle
  | looked (req : SubmitRequest) (recent : TaskInfo)
  | creating (req : SubmitRequest)
  /-- The refresh is written, the row is still to be read. -/
  | refreshed (req : SubmitRequest) (taskId superseded : String)
  /-- `Enqueue` returns this task, after the release if there is one. -/
  | accepted (release : Option Release) (req : SubmitRequest) (disposition : EnqueueDisposition) (task : TaskInfo)
  | dequeuing (workerId : Int) (task : TaskInfo)
  deriving DecidableEq

structure Held where
  workerId : Int
  task : TaskInfo

structure State where
  tasks : Tasks
  sched : Sched
  /-- `active_docs_`, a `std::set`. -/
  activeDocs : List (String × String)
  workers : List Held
  /-- Finalizers and cancels that have recorded a terminal status and are about to release the input. -/
  releases : List Release
  calls : Nat

def State.init (tasks : Tasks) : State := ⟨tasks, .idle, [], [], [], 0⟩

/-! ## Enqueue -/

def decideEnqueue (req : SubmitRequest) : Option TaskInfo → Sched
  | none => .creating req
  | some r => if r.contentHash = req.contentHash ∨ r.status = .queued then .looked req r else .creating req

/-- The lookup of `Enqueue`, when there is a document to dedup on and a window. -/
def lookupRecent (req : SubmitRequest) (window nowSecs : Int) (t : Tasks) (out : Option TaskInfo) : Bool :=
  if req.docId ≠ "" ∧ 0 < window then
    findRecentTaskByDocId req.namespaceId req.docId req.taskType window nowSecs t out
  else out == none

/-- The input of a submission that merges into a task with another path is owned by nobody. -/
def mergeRelease (req : SubmitRequest) (claimed : TaskInfo) : Option Release :=
  if req.filepath ≠ "" ∧ req.filepath ≠ claimed.filepath then some ⟨req.filepath, claimed.taskId⟩ else none

def refreshRelease (req : SubmitRequest) (taskId superseded : String) : Option Release :=
  if superseded ≠ "" ∧ superseded ≠ req.filepath then some ⟨superseded, taskId⟩ else none

def requestTask (req : SubmitRequest) : TaskInfo :=
  { taskId := "", namespaceId := req.namespaceId, filename := req.filename, filepath := req.filepath,
    docId := req.docId, contentHash := req.contentHash, status := .queued, taskType := req.taskType,
    cancelRequested := false, totalPages := req.totalPages, processedPages := 0, failedPages := [], etaSeconds := -1,
    currentPhase := "", workerId := -1, traceId := req.traceId, errorCode := "", errorMsg := "",
    structuredData := "", createdAt := 0, updatedAt := 0, startedAt := none, completedAt := none,
    metadataJson := req.metadataJson }

/-! ## Dequeue -/

def docOf (task : TaskInfo) : String × String := (task.namespaceId, task.docId)

/-- The reservation of a task: none for a task without a document. -/
def reserve (task : TaskInfo) (active : List (String × String)) : List (String × String) :=
  if task.docId ≠ "" then active.insert (docOf task) else active

def unreserve (task : TaskInfo) (active : List (String × String)) : List (String × String) :=
  if task.docId ≠ "" then active.filter (· != docOf task) else active

/-! ## Steps -/

/-- How a handler ends; `WorkerLoop` goes on to `OnTaskCompleted` in each case. -/
inductive HandlerOutcome
  | returned | failed | threw | noHandler

inductive Outcome
  | complete (docId : String)
  | fail (errorCode errorMsg structuredData : String)
  | cancel

def Outcome.mark (taskId : String) (now : Int) : Outcome → Tasks → Reply Unit
  | .complete docId => markCompleted taskId docId now
  | .fail errorCode errorMsg structuredData => markFailed taskId errorCode errorMsg structuredData now
  | .cancel => markCancelled taskId now

/-- The transitions that other threads make. -/
inductive Transition
  | markProcessing (taskId : String) (workerId now : Int)
  | markCompleted (taskId docId : String) (now : Int)
  | markFailed (taskId errorCode errorMsg structuredData : String) (now : Int)
  | markCancelled (taskId : String) (now : Int)
  | requestCancel (taskId : String) (now : Int)
  | updateProgress (task : TaskInfo) (now : Int)
  | sweepZombies (nowUnix zombieHours now : Int)
  | sweepTimedOut (nowUnix timeoutSeconds now : Int)

def Transition.apply : Transition → Tasks → Tasks
  | .markProcessing taskId workerId now, t => (Async.markProcessing taskId workerId now t).1
  | .markCompleted taskId docId now, t => (Async.markCompleted taskId docId now t).1
  | .markFailed taskId errorCode errorMsg data now, t => (Async.markFailed taskId errorCode errorMsg data now t).1
  | .markCancelled taskId now, t => (Async.markCancelled taskId now t).1
  | .requestCancel taskId now, t => (Async.requestCancel taskId now t).1
  | .updateProgress task now, t => (Async.updateProgress task now t).1
  | .sweepZombies nowUnix zombieHours now, t => (Async.sweepZombies nowUnix zombieHours now t).1
  | .sweepTimedOut nowUnix timeoutSeconds now, t => (Async.sweepTimedOut nowUnix timeoutSeconds now t).1

inductive Act
  | enqueue (req : SubmitRequest) (window nowSecs : Int) (out : Option TaskInfo)
  | enqueueClaim (now : Int)
  | enqueueRefresh (now : Int)
  | enqueueRead
  | enqueueCreate (newId : String) (now : Int)
  | enqueueRelease
  | enqueueReturn
  | dequeue (workerId : Int) (out : Option TaskInfo)
  | dequeueMark (now : Int)
  | dequeueFault
  | finalize (workerId : Int) (outcome : Outcome) (now : Int)
  | finished (workerId : Int) (outcome : HandlerOutcome)
  | cancelTask (taskId : String) (now : Int)
  | release (rel : Release)
  | transition (tr : Transition)

def heldBy (s : State) (workerId : Int) : Option Held := s.workers.find? fun h => h.workerId == workerId

/-- The claim of a merge, for a candidate with the content of the request. -/
def claimStep (s : State) (now : Int) : Option State :=
  match s.sched with
  | .looked req r =>
    if r.contentHash = req.contentHash then
      match tryClaimDebounceMerge r.taskId now s.tasks with
      | (t, .ok claimed) => some { s with tasks := t, sched := .accepted (mergeRelease req claimed) req .merged claimed }
      | (t, .error _) => some { s with tasks := t, sched := .creating req }
    else none
  | _ => none

/-- The write of a refresh, for a queued candidate with other content. -/
def refreshStep (s : State) (now : Int) : Option State :=
  match s.sched with
  | .looked req r =>
    if r.contentHash = req.contentHash then none
    else
      match refreshQueued r.taskId req now s.tasks with
      | (t, .ok _) => some { s with tasks := t, sched := .refreshed req r.taskId r.filepath }
      | (t, .error _) => some { s with tasks := t, sched := .creating req }
  | _ => none

def readStep (s : State) : Option State :=
  match s.sched with
  | .refreshed req taskId superseded =>
    match getTask taskId s.tasks with
    | .ok task => some { s with sched := .accepted (refreshRelease req taskId superseded) req .refreshed task }
    | .error _ => some { s with sched := .creating req }
  | _ => none

def createStep (env : Env) (s : State) (newId : String) (now : Int) : Option State :=
  match s.sched with
  | .creating req =>
    match createTask env.weaklyCanonical newId now (requestTask req) s.tasks with
    | (t, .ok task) => some { s with tasks := t, sched := .accepted none req .created task }
    | (t, .error _) => some { s with tasks := t, sched := .idle }
  | _ => none

/-- The mark of a dequeue: a row that is no longer queued gives the reservation back. -/
def markStep (s : State) (now : Int) : Option State :=
  match s.sched with
  | .dequeuing workerId task =>
    match markProcessing task.taskId workerId now s.tasks with
    | (t, .ok _) =>
      some { s with
        tasks := t, sched := .idle, workers := ⟨workerId, { task with status := .processing, workerId }⟩ :: s.workers }
    | (t, .error _) => some { s with tasks := t, sched := .idle, activeDocs := unreserve task s.activeDocs }
  | _ => none

/-- `TaskFinalizer`: the input is given up once the terminal status is recorded. -/
def finalizeStep (s : State) (workerId : Int) (outcome : Outcome) (now : Int) : Option State :=
  match heldBy s workerId with
  | none => none
  | some h =>
    match outcome.mark h.task.taskId now s.tasks with
    | (t, .ok _) => some { s with tasks := t, releases := ⟨h.task.filepath, h.task.taskId⟩ :: s.releases }
    | (t, .error _) => some { s with tasks := t }

/-- `CancelTask`: a queued task is terminal at once, and its input is released here. -/
def cancelStep (s : State) (taskId : String) (now : Int) : Option State :=
  match requestCancel taskId now s.tasks with
  | (t, .ok out) =>
    if out.status = .cancelled then some { s with tasks := t, releases := ⟨out.filepath, out.taskId⟩ :: s.releases }
    else some { s with tasks := t }
  | (t, .error _) => some { s with tasks := t }

def step (env : Env) (s : State) : Act → Option State
  | .enqueue req window nowSecs out =>
    if s.sched = .idle ∧ lookupRecent req window nowSecs s.tasks out = true then
      some { s with sched := decideEnqueue req out, calls := s.calls + 1 }
    else none
  | .enqueueClaim now => claimStep s now
  | .enqueueRefresh now => refreshStep s now
  | .enqueueRead => readStep s
  | .enqueueCreate newId now => createStep env s newId now
  | .enqueueRelease =>
    match s.sched with
    | .accepted (some _) req disposition task => some { s with sched := .accepted none req disposition task }
    | _ => none
  | .enqueueReturn =>
    match s.sched with
    | .accepted none _ _ _ => some { s with sched := .idle }
    | _ => none
  | .dequeue workerId out =>
    if s.sched = .idle ∧ heldBy s workerId = none ∧
        selectOldestQueuedTaskExcluding s.activeDocs s.tasks out = true then
      match out with
      | none => some s
      | some task => some { s with sched := .dequeuing workerId task, activeDocs := reserve task s.activeDocs }
    else none
  | .dequeueMark now => markStep s now
  | .dequeueFault =>
    match s.sched with
    | .dequeuing _ task => some { s with sched := .idle, activeDocs := unreserve task s.activeDocs }
    | _ => none
  | .finalize workerId outcome now => finalizeStep s workerId outcome now
  | .finished workerId _ =>
    match s.sched, heldBy s workerId with
    | .idle, some h =>
      some { s with
        activeDocs := unreserve h.task s.activeDocs, workers := s.workers.filter fun h => h.workerId != workerId }
    | _, _ => none
  | .cancelTask taskId now => cancelStep s taskId now
  | .release rel => if rel ∈ s.releases then some { s with releases := s.releases.erase rel } else none
  | .transition tr => some { s with tasks := tr.apply s.tasks }

def removes (env : Env) (s : State) : Act → Option String
  | .enqueueRelease =>
    match s.sched with
    | .accepted (some rel) _ _ _ => releaseManagedPath env rel.filepath rel.excludeTaskId s.tasks
    | _ => none
  | .release rel => if rel ∈ s.releases then releaseManagedPath env rel.filepath rel.excludeTaskId s.tasks else none
  | _ => none

/-! ## Sample submissions -/

def upload (docId contentHash filepath : String) : SubmitRequest :=
  { namespaceId := "n", filename := "", filepath, docId, contentHash, traceId := "", metadataJson := "",
    totalPages := 1, taskType := 0 }

theorem some_empty (path : String) (h : some "" = some path) : path = "" := (Option.some.inj h).symm

def flatEnv : Env := ⟨some, fun _ => "", "", some_empty⟩

def createdTask (env : Env) (newId : String) (now : Int) (req : SubmitRequest) : TaskInfo :=
  (newRow env.weaklyCanonical newId now (requestTask req)).toTaskInfo

end Cortrix.Async.Scheduler
