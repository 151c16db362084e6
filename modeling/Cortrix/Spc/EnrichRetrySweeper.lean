import Cortrix.Async.SchedulerSteps
import Cortrix.Spc.EnrichStateStore

/-!
# EnrichRetrySweeper

`RunSweepNow` as the thread that holds `sweep_mu_`, over the tasks table and the `enrich_state` table of each namespace.
Its calls into the two databases are separate steps; transitions of the tasks by other threads, submissions of other task
types, restarts and `MakeAllPendingDueNow` come in between. A read or a write of either database may fail.
-/

namespace Cortrix.Spc.RetrySweeper
open Lib Async

def kTaskEnrichBackfill : Int := 4

def kLeaseSeconds : Int := 600

/-! ## Reads -/

/-- A backfill task of the document in status `queued`, `processing` or `cancelling`. A task without a document has
`NULL` for its id, which no id equals. -/
def isActive (ns doc : String) (r : TaskRow) : Bool :=
  r.namespaceId == ns && r.docId == doc && doc != "" && r.taskType == kTaskEnrichBackfill && r.status.live

def hasActiveTask (ns doc : String) (t : Tasks) : Bool := t.any (isActive ns doc)

def activeCount (ns doc : String) (t : Tasks) : Nat := changes (isActive ns doc) t

def docDue (now : Int) (doc : String) (rows : List EnrichStateRow) : Bool :=
  rows.any fun r => r.docId == doc && r.due now

/-- `MIN(next_retry_at)` of the due rows of a document. -/
def minDue (now : Int) (doc : String) (rows : List EnrichStateRow) : Int :=
  (((rows.filter fun r => r.docId == doc && r.due now).filterMap EnrichStateRow.nextRetryAt).min?).getD 0

/-- `ListDueDocs` may return `out`: the due documents, the longest waiting first, ties in any order. -/
def listDueDocs (now : Int) (limit : Nat) (rows : List EnrichStateRow) (out : List String) : Prop :=
  out.Nodup ∧ (∀ d ∈ out, docDue now d rows = true) ∧ out.Pairwise (fun d d' => minDue now d rows ≤ minDue now d' rows) ∧
    out.length ≤ limit ∧
    (out.length < limit → ∀ r ∈ rows, r.due now = true → r.docId ∈ out)

instance (now : Int) (limit : Nat) (rows : List EnrichStateRow) (out : List String) :
    Decidable (listDueDocs now limit rows out) :=
  inferInstanceAs (Decidable (_ ∧ _ ∧ _ ∧ _ ∧ _))

/-- The limit of a sweep, the largest `int`. -/
def noLimit : Nat := 2 ^ 31 - 1

def backfillRequest (ns doc : String) : SubmitRequest :=
  { namespaceId := ns, filename := "enrich-backfill", filepath := "", docId := doc, contentHash := doc, traceId := "",
    metadataJson := "", totalPages := 0, taskType := kTaskEnrichBackfill }

/-! ## State -/

/-- The clock and the cap of a sweep, and the documents it has created a task for. -/
structure SweepInfo where
  now : Int
  cap : Int
  created : List (String × String)
  deriving DecidableEq

/-- A sweep inside a namespace: the due documents to come, and the namespaces after it. -/
structure Place where
  info : SweepInfo
  ns : String
  due : List String
  attempted : Int
  rest : List String
  deriving DecidableEq

inductive Call
  | lookup
  | looked (recent : TaskInfo)
  | creating
  deriving DecidableEq

/-- The holder of `sweep_mu_`. -/
inductive Sweep
  | idle
  | namespaces (info : SweepInfo) (rest : List String)
  | docs (p : Place)
  /-- No active task was found for the document, its lease is to be taken. -/
  | leasing (p : Place) (doc : String)
  | calling (p : Place) (doc : String) (call : Call)
  /-- Nothing was created for the document, its lease is to be handed back. -/
  | unleasing (p : Place) (doc : String)
  deriving DecidableEq

structure State where
  tasks : Tasks
  /-- `enrich_state` of each namespace. -/
  ledger : String → List EnrichStateRow
  sweep : Sweep

def State.init (tasks : Tasks) (ledger : String → List EnrichStateRow) : State := ⟨tasks, ledger, .idle⟩

/-- What `FindRecentTaskByDocId` answers: an error, no row because the statement failed to step, or what it found. -/
inductive Lookup
  | error
  | stepFailed
  | answer (window nowSecs : Int) (out : Option TaskInfo)

inductive Act
  /-- `RunSweepNow` over one namespace or over the loaded ones. -/
  | sweepStart (namespaces : List String) (now cap : Int)
  /-- A namespace that is not loaded, or whose due documents cannot be listed. -/
  | skipNamespace
  | enterNamespace (due : List String)
  | leaveNamespace
  | check (failed : Bool)
  | lease (ok : Bool)
  | lookup (answer : Lookup)
  | claim (now : Int) (failed : Bool)
  | refresh (now : Int) (readOk : Bool)
  | create (newId : String) (now : Int) (ok : Bool)
  | unlease (ok : Bool)
  | sweepReturn
  /-- An exception, which `RunLoop` or the route catches. -/
  | sweepThrow
  | transition (tr : Scheduler.Transition)
  /-- The calls of an `Enqueue` for another task type. -/
  | claimOther (taskId : String) (now : Int)
  | refreshOther (taskId : String) (req : SubmitRequest) (now : Int)
  | createOther (row : TaskRow)
  | deleteExpired (cutoff : Int)
  | restart (nowUnix zombieHours now : Int) (requeued : Bool)
  | makeAllPendingDueNow (ns : String) (now : Int)

def Place.attempt (p : Place) : Place := { p with attempted := p.attempted + 1 }

def Place.create (p : Place) (doc : String) : Place :=
  { p with info := { p.info with created := p.info.created ++ [(p.ns, doc)] } }

def State.lease (s : State) (p : Place) (doc : String) (leaseUntil : Int) : State :=
  { s with ledger := Function.update s.ledger p.ns (leaseDocRetries doc leaseUntil p.info.now (s.ledger p.ns)) }

/-! ## Steps of a sweep -/

def checkStep (s : State) (failed : Bool) : Option State :=
  match s.sweep with
  | .docs p =>
    match p.due with
    | doc :: due =>
      if p.info.cap ≤ p.attempted then none
      else if failed then some { s with sweep := .docs { p.attempt with due } }
      else if hasActiveTask p.ns doc s.tasks then some { s with sweep := .docs { p with due } }
      else some { s with sweep := .leasing { p.attempt with due } doc }
    | [] => none
  | _ => none

def leaseStep (s : State) (ok : Bool) : Option State :=
  match s.sweep with
  | .leasing p doc =>
    if ok then some { s.lease p doc (p.info.now + kLeaseSeconds) with sweep := .calling p doc .lookup }
    else some { s with sweep := .docs p }
  | _ => none

def decideCall (doc : String) : Option TaskInfo → Call
  | none => .creating
  | some r => if r.contentHash = doc ∨ r.status = .queued then .looked r else .creating

def lookupStep (s : State) (answer : Lookup) : Option State :=
  match s.sweep with
  | .calling p doc .lookup =>
    match answer with
    | .error => some { s with sweep := .unleasing p doc }
    | .stepFailed => some { s with sweep := .calling p doc .creating }
    | .answer window nowSecs out =>
      if Scheduler.lookupRecent (backfillRequest p.ns doc) window nowSecs s.tasks out = true then
        some { s with sweep := .calling p doc (decideCall doc out) }
      else none
  | _ => none

def claimStep (s : State) (now : Int) (failed : Bool) : Option State :=
  match s.sweep with
  | .calling p doc (.looked r) =>
    if r.contentHash = doc then
      if failed then some { s with sweep := .calling p doc .creating }
      else
        match tryClaimDebounceMerge r.taskId now s.tasks with
        | (t, .ok _) => some { s with tasks := t, sweep := .unleasing p doc }
        | (t, .error _) => some { s with tasks := t, sweep := .calling p doc .creating }
    else none
  | _ => none

/-- `UpdateTaskForDebounce`, whose read after the write may fail. -/
def refreshStep (s : State) (now : Int) (readOk : Bool) : Option State :=
  match s.sweep with
  | .calling p doc (.looked r) =>
    if r.contentHash = doc then none
    else
      match refreshQueued r.taskId (backfillRequest p.ns doc) now s.tasks with
      | (t, .ok _) =>
        if readOk then some { s with tasks := t, sweep := .unleasing p doc }
        else some { s with tasks := t, sweep := .calling p doc .creating }
      | (t, .error _) => some { s with tasks := t, sweep := .calling p doc .creating }
  | _ => none

/-- The row `CreateTask` inserts for a backfill: no input, so no path to resolve. -/
def backfillRow (ns doc newId : String) (now : Int) : TaskRow :=
  newRow (fun _ => none) newId now (Scheduler.requestTask (backfillRequest ns doc))

def createStep (s : State) (newId : String) (now : Int) (ok : Bool) : Option State :=
  match s.sweep with
  | .calling p doc .creating =>
    if ok then
      match createTask (fun _ => none) newId now (Scheduler.requestTask (backfillRequest p.ns doc)) s.tasks with
      | (t, .ok _) => some { s with tasks := t, sweep := .docs (p.create doc) }
      | (t, .error _) => some { s with tasks := t, sweep := .unleasing p doc }
    else some { s with sweep := .unleasing p doc }
  | _ => none

def unleaseStep (s : State) (ok : Bool) : Option State :=
  match s.sweep with
  | .unleasing p doc =>
    if ok then some { s.lease p doc p.info.now with sweep := .docs p } else some { s with sweep := .docs p }
  | _ => none

def step (s : State) : Act → Option State
  | .sweepStart namespaces now cap =>
    if s.sweep = .idle then some { s with sweep := .namespaces ⟨now, cap, []⟩ namespaces } else none
  | .skipNamespace =>
    match s.sweep with
    | .namespaces info (_ :: rest) => some { s with sweep := .namespaces info rest }
    | _ => none
  | .enterNamespace due =>
    match s.sweep with
    | .namespaces info (ns :: rest) =>
      if listDueDocs info.now noLimit (s.ledger ns) due then some { s with sweep := .docs ⟨info, ns, due, 0, rest⟩ }
      else none
    | _ => none
  | .leaveNamespace =>
    match s.sweep with
    | .docs p =>
      if p.due = [] ∨ p.info.cap ≤ p.attempted then some { s with sweep := .namespaces p.info p.rest } else none
    | _ => none
  | .check failed => checkStep s failed
  | .lease ok => leaseStep s ok
  | .lookup answer => lookupStep s answer
  | .claim now failed => claimStep s now failed
  | .refresh now readOk => refreshStep s now readOk
  | .create newId now ok => createStep s newId now ok
  | .unlease ok => unleaseStep s ok
  | .sweepReturn =>
    match s.sweep with
    | .namespaces _ [] => some { s with sweep := .idle }
    | _ => none
  | .sweepThrow => some { s with sweep := .idle }
  | .transition tr => some { s with tasks := tr.apply s.tasks }
  | .claimOther taskId now => some { s with tasks := (tryClaimDebounceMerge taskId now s.tasks).1 }
  | .refreshOther taskId req now => some { s with tasks := (refreshQueued taskId req now s.tasks).1 }
  | .createOther row =>
    -- `RunSweepNow` is the only producer of backfill tasks
    if row.taskType = kTaskEnrichBackfill then none
    else some { s with tasks := (insertRow (fun r => r.taskId) row s.tasks).getD s.tasks }
  | .deleteExpired cutoff =>
    some { s with tasks := deleteWhere (fun r => !r.status.live && decide (r.updatedAt < cutoff)) s.tasks }
  | .restart nowUnix zombieHours now requeued =>
    some { s with
      tasks := if requeued then (requeueStaleProcessing nowUnix zombieHours now s.tasks).1 else s.tasks
      sweep := .idle }
  | .makeAllPendingDueNow ns now =>
    some { s with ledger := Function.update s.ledger ns (makeAllPendingDueNow now (s.ledger ns)) }

end Cortrix.Spc.RetrySweeper
