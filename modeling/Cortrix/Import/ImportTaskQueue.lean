import Cortrix.Lib.Parties
import Cortrix.Lib.Run
import Cortrix.Lib.Table

/-!
# The queue of the import tasks

`ImportTaskQueue` over the in-memory task store, under any threads: the `Submit` calls with the runs they dispatch, and
the `Cancel` calls. A store call, a section under `cancel_mu_` and an access to a cancel flag are one step each.

* `Edge` : the status changes of a task.
-/

namespace Cortrix.Import
open Lib

inductive ImportTaskStatus
  | kQueued
  | kRunning
  | kCompleted
  | kFailed
  | kCancelling
  | kCancelled
  deriving DecidableEq

structure TaskError where
  code : String
  message : String
  deriving DecidableEq

structure ImportTaskProgress where
  taskId : String
  status : ImportTaskStatus := .kQueued
  namespaceId : String := ""
  rowsImported : Int := 0
  rowsTotal : Int := 0
  queuedAt : Int := 0
  startedAt : Option Int := none
  completedAt : Option Int := none
  error : Option TaskError := none
  deriving DecidableEq

abbrev Store := List ImportTaskProgress

/-! ## The task store -/

def create (task : ImportTaskProgress) (t : Store) : Option Store := insertRow ImportTaskProgress.taskId task t

def get (taskId : String) (t : Store) : Option ImportTaskProgress := lookup ImportTaskProgress.taskId taskId t

/-- `Update`. The row is overwritten as a whole; without a row nothing is written. -/
def update (task : ImportTaskProgress) (t : Store) : Store :=
  updateWhere (fun r => r.taskId == task.taskId) (fun _ => task) t

def compareAndSetStatus (taskId : String) (expected next : ImportTaskStatus) (t : Store) : Store × Bool :=
  match get taskId t with
  | some r => if r.status = expected then (update { r with status := next } t, true) else (t, false)
  | none => (t, false)

/-! ## The calls -/

/-- Where a `Submit` call, or the `RunTask` it dispatched, stands: what it does next. -/
inductive Phase
  /-- `Create` of the row. -/
  | creating (namespaceId : String) (rowsTotal : Int)
  | rollingBack
  | rejected
  | queued
  | starting
  | refused
  | settling
  /-- The row is running: it is read for `started_at`. -/
  | started
  | stamping (row : ImportTaskProgress)
  | working
  /-- In `ReportProgress`, the row read. -/
  | reporting (row : ImportTaskProgress) (rowsImported rowsTotal : Int)
  | checking (err : Option String)
  | finalizing (terminal : ImportTaskStatus) (err : Option String)
  | writing (row : ImportTaskProgress) (terminal : ImportTaskStatus) (err : Option String)
  | erasing
  | ended
  deriving DecidableEq

/-- A `Submit` call, and the flag it registered or `RunTask` found. -/
structure Call where
  taskId : String
  flag : Nat
  phase : Phase

inductive CancelPhase
  | getting
  | signalling
  | casQueued
  | casRunning
  | returned (known : Bool)
  deriving DecidableEq

structure CancelCall where
  taskId : String
  flag : Option Nat
  phase : CancelPhase

structure State where
  queueMaxSize : Int
  store : Store := []
  /-- `cancel_flags_`: the flag object of a task. -/
  flags : List (String × Nat) := []
  raised : List Nat := []
  made : Nat := 0
  calls : List Call := []
  cancels : List CancelCall := []
  /-- The tasks whose flag a `Cancel` set before the worker's last check. -/
  cancelled : List String := []

/-- The worker has not made its last check of the flag. -/
def Phase.beforeCheck : Phase → Bool
  | .queued => true
  | .starting => true
  | .refused => true
  | .settling => true
  | .started => true
  | .stamping _ => true
  | .working => true
  | .reporting _ _ _ => true
  | .checking _ => true
  | .creating _ _ => false
  | .rollingBack => false
  | .rejected => false
  | .finalizing _ _ => false
  | .writing _ _ _ => false
  | .erasing => false
  | .ended => false

namespace State
variable (s : State)

def full : Bool := s.queueMaxSize ≤ s.flags.length

/-- The first section of `Submit`: refused when the queue is full. -/
def submit (taskId namespaceId : String) (rowsTotal : Int) : State :=
  if s.full then s
  else
    { s with
      flags := upsertRow Prod.fst (taskId, s.made) s.flags
      made := s.made + 1
      calls := s.calls ++ [⟨taskId, s.made, .creating namespaceId rowsTotal⟩] }

def setCall (i : Nat) (c : Call) : State := { s with calls := s.calls.set i c }

def eraseFlag (taskId : String) : State := { s with flags := deleteWhere (fun e => e.1 == taskId) s.flags }

end State

def ImportTaskProgress.stamped (r : ImportTaskProgress) (now : Int) : ImportTaskProgress :=
  { r with startedAt := some now }

/-- The counters `ReportProgress` writes into the row it read. -/
def ImportTaskProgress.reported (r : ImportTaskProgress) (rowsImported rowsTotal : Int) : ImportTaskProgress :=
  { r with rowsImported := rowsImported, rowsTotal := if rowsTotal > 0 then rowsTotal else r.rowsTotal }

/-- The error body of a failed work: the code the message starts with, if it is one of the import codes. -/
def errorOf (message : String) : TaskError where
  code :=
    if message.startsWith "CX_ERR_F16A_" && message.contains ':' then (message.splitOn ":").headD ""
    else "CX_ERR_F16A_CONNECTION_FAILED"
  message := if message.isEmpty then "CX_ERR_F16A_CONNECTION_FAILED" else message

def ImportTaskProgress.finalized (r : ImportTaskProgress) (terminal : ImportTaskStatus) (err : Option String)
    (now : Int) : ImportTaskProgress :=
  { r with
    status := terminal
    completedAt := some now
    rowsTotal := if terminal = .kCompleted ∧ r.rowsTotal ≤ 0 then r.rowsImported else r.rowsTotal
    error := if terminal = .kFailed then (err.map errorOf).or r.error else r.error }

/-- The terminal status: a flag that is set wins over the result of the work. -/
def terminalOf (raised : Bool) (err : Option String) : ImportTaskStatus :=
  if raised then .kCancelled
  else
    match err with
    | none => .kCompleted
    | some _ => .kFailed

/-- The next step of call `i`, unless it is in the work or has ended. -/
def advance (s : State) (i : Nat) (now : Int) (c : Call) : Option State :=
  match c.phase with
  | .creating namespaceId rowsTotal =>
    match create { taskId := c.taskId, namespaceId := namespaceId, rowsTotal := rowsTotal, queuedAt := now } s.store with
    | some t => some ({ s with store := t }.setCall i { c with phase := .queued })
    | none => some (s.setCall i { c with phase := .rollingBack })
  | .rollingBack => some ((s.eraseFlag c.taskId).setCall i { c with phase := .rejected })
  | .rejected => none
  | .queued =>
    match lookup Prod.fst c.taskId s.flags with
    | some e => some (s.setCall i { c with flag := e.2, phase := .starting })
    | none => some (s.setCall i { c with phase := .ended })
  | .starting =>
    match compareAndSetStatus c.taskId .kQueued .kRunning s.store with
    | (t, true) => some ({ s with store := t }.setCall i { c with phase := .started })
    | (_, false) => some (s.setCall i { c with phase := .refused })
  | .refused =>
    match get c.taskId s.store with
    | some r =>
      if r.status = .kCancelling ∨ r.status = .kCancelled then some (s.setCall i { c with phase := .settling })
      else some (s.setCall i { c with phase := .ended })
    | none => some (s.setCall i { c with phase := .ended })
  | .settling =>
    -- RunTask returns here, and its flag stays in the map
    some ({ s with store := (compareAndSetStatus c.taskId .kCancelling .kCancelled s.store).1 }.setCall i
      { c with phase := .ended })
  | .started =>
    match get c.taskId s.store with
    | some r => some (s.setCall i { c with phase := .stamping r })
    | none => some (s.setCall i { c with phase := .working })
  | .stamping r => some ({ s with store := update (r.stamped now) s.store }.setCall i { c with phase := .working })
  | .working => none
  | .reporting r rowsImported rowsTotal =>
    some ({ s with store := update (r.reported rowsImported rowsTotal) s.store }.setCall i { c with phase := .working })
  | .checking err =>
    some (s.setCall i { c with phase := .finalizing (terminalOf (decide (c.flag ∈ s.raised)) err) err })
  | .finalizing terminal err =>
    match get c.taskId s.store with
    | some r => some (s.setCall i { c with phase := .writing r terminal err })
    | none => some (s.setCall i { c with phase := .erasing })
  | .writing r terminal err =>
    some ({ s with store := update (r.finalized terminal err now) s.store }.setCall i { c with phase := .erasing })
  | .erasing => some ((s.eraseFlag c.taskId).setCall i { c with phase := .ended })
  | .ended => none

def advanceCancel (s : State) (k : Nat) (c : CancelCall) : Option State :=
  match c.phase with
  | .getting =>
    match get c.taskId s.store with
    | some _ => some { s with cancels := s.cancels.set k { c with phase := .signalling } }
    | none => some { s with cancels := s.cancels.set k { c with phase := .returned false } }
  | .signalling =>
    let s' := { s with cancels := s.cancels.set k { c with phase := .casQueued } }
    match c.flag with
    | some f =>
      some { s' with
        raised := f :: s.raised
        cancelled :=
          if s.calls.any fun x => x.taskId == c.taskId && x.phase.beforeCheck then c.taskId :: s.cancelled
          else s.cancelled }
    | none => some s'
  | .casQueued =>
    match compareAndSetStatus c.taskId .kQueued .kCancelled s.store with
    | (t, true) => some { s with store := t, cancels := s.cancels.set k { c with phase := .returned true } }
    | (_, false) => some { s with cancels := s.cancels.set k { c with phase := .casRunning } }
  | .casRunning =>
    some { s with
      store := (compareAndSetStatus c.taskId .kRunning .kCancelling s.store).1
      cancels := s.cancels.set k { c with phase := .returned true } }
  | .returned _ => none

inductive Act
  | submit (taskId namespaceId : String) (rowsTotal : Int)
  | run (i : Nat) (now : Int)
  | report (i : Nat) (rowsImported rowsTotal : Int)
  | workReturns (i : Nat) (err : Option String)
  | cancel (taskId : String)
  | runCancel (k : Nat)

def step (s : State) : Act → Option State
  | .submit taskId namespaceId rowsTotal => some (s.submit taskId namespaceId rowsTotal)
  | .run i now => s.calls[i]?.bind (advance s i now)
  | .report i rowsImported rowsTotal =>
    match s.calls[i]? with
    | some c =>
      if c.phase = .working then
        match get c.taskId s.store with
        | some r => some (s.setCall i { c with phase := .reporting r rowsImported rowsTotal })
        | none => some s
      else none
    | none => none
  | .workReturns i err =>
    match s.calls[i]? with
    | some c => if c.phase = .working then some (s.setCall i { c with phase := .checking err }) else none
    | none => none
  | .cancel taskId =>
    some { s with
      cancels := s.cancels ++ [⟨taskId, (lookup Prod.fst taskId s.flags).map Prod.snd, .getting⟩] }
  | .runCancel k => s.cancels[k]?.bind (advanceCancel s k)

def init (queueMaxSize : Int) : State := { queueMaxSize := queueMaxSize }

def Edge : ImportTaskStatus → ImportTaskStatus → Bool
  | .kQueued, .kRunning => true
  | .kQueued, .kCancelled => true
  | .kRunning, .kCancelling => true
  | .kRunning, .kCompleted => true
  | .kRunning, .kFailed => true
  | .kRunning, .kCancelled => true
  | .kCancelling, .kCompleted => true
  | .kCancelling, .kFailed => true
  | .kCancelling, .kCancelled => true
  | _, _ => false

end Cortrix.Import
