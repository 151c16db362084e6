import Cortrix.Async.TaskManager

/-!
# The status machine of a task

Any threads call the operations of `TaskManager` in any order. `exec` is one critical section with what it reports;
`UpdateTaskForDebounce` has two, its write and the read of the row it returns.

* `Op.edge` : the status changes an operation may make; only `RequeueStaleProcessing` goes back to `queued`;
* `Change op t t'` : all an operation may do to the table, from which the table facts follow;
* `status_machine` : over every run the statuses follow the edges, terminal rows keep their status, and a call
  reports Ok exactly when its transition was applied.
-/

namespace Cortrix.Async.StatusMachine
open Lib

/-- The table, and the `UpdateTaskForDebounce` calls between their write and their read. -/
structure State where
  tasks : Tasks
  reading : List String

inductive Op
  | createTask (newId : String) (now : Int) (task : TaskInfo)
  | markProcessing (taskId : String) (workerId now : Int)
  | markCompleted (taskId docId : String) (now : Int)
  | markFailed (taskId errorCode errorMsg structuredData : String) (now : Int)
  | requestCancel (taskId : String) (now : Int)
  | markCancelled (taskId : String) (now : Int)
  | updateTaskForDebounce (taskId : String) (req : SubmitRequest) (now : Int)
  | readDebounced (taskId : String)
  | tryClaimDebounceMerge (taskId : String) (now : Int)
  | updateProgress (task : TaskInfo) (now : Int)
  | sweepZombies (nowUnix zombieHours now : Int)
  | sweepTimedOut (nowUnix timeoutSeconds now : Int)
  | requeueStaleProcessing (nowUnix zombieHours now : Int)

inductive Report
  | ok
  /-- Ok with the number of rows a sweep changed. -/
  | rows (n : Nat)
  /-- The write of `UpdateTaskForDebounce` is in place, its read is to come. -/
  | pending
  | error (e : F42Error)

def Report.of {α : Type} : Except F42Error α → Report
  | .ok _ => .ok
  | .error e => .error e

def Report.isOk : Report → Bool
  | .ok => true
  | .rows _ => true
  | .pending => true
  | .error _ => false

def State.reply {α : Type} (s : State) (x : Reply α) : State × Report := ({ s with tasks := x.1 }, .of x.2)

def State.swept (s : State) (x : Tasks × Nat) : State × Report := ({ s with tasks := x.1 }, .rows x.2)

def State.refreshed (s : State) (taskId : String) : Reply Unit → State × Report
  | (t, .ok _) => (⟨t, taskId :: s.reading⟩, .pending)
  | (t, .error e) => ({ s with tasks := t }, .error e)

def exec (weaklyCanonical : String → Option String) (s : State) : Op → Option (State × Report)
  | .createTask newId now task => some (s.reply (Async.createTask weaklyCanonical newId now task s.tasks))
  | .markProcessing taskId workerId now => some (s.reply (Async.markProcessing taskId workerId now s.tasks))
  | .markCompleted taskId docId now => some (s.reply (Async.markCompleted taskId docId now s.tasks))
  | .markFailed taskId errorCode errorMsg structuredData now =>
    some (s.reply (Async.markFailed taskId errorCode errorMsg structuredData now s.tasks))
  | .requestCancel taskId now => some (s.reply (Async.requestCancel taskId now s.tasks))
  | .markCancelled taskId now => some (s.reply (Async.markCancelled taskId now s.tasks))
  | .updateTaskForDebounce taskId req now => some (s.refreshed taskId (refreshQueued taskId req now s.tasks))
  | .readDebounced taskId =>
    if taskId ∈ s.reading then some (⟨s.tasks, s.reading.erase taskId⟩, .of (getTask taskId s.tasks)) else none
  | .tryClaimDebounceMerge taskId now => some (s.reply (Async.tryClaimDebounceMerge taskId now s.tasks))
  | .updateProgress task now => some (s.reply (Async.updateProgress task now s.tasks))
  | .sweepZombies nowUnix zombieHours now => some (s.swept (Async.sweepZombies nowUnix zombieHours now s.tasks))
  | .sweepTimedOut nowUnix timeoutSeconds now =>
    some (s.swept (Async.sweepTimedOut nowUnix timeoutSeconds now s.tasks))
  | .requeueStaleProcessing nowUnix zombieHours now =>
    some (s.swept (Async.requeueStaleProcessing nowUnix zombieHours now s.tasks))

def step (weaklyCanonical : String → Option String) (s : State) (op : Op) : Option State :=
  (exec weaklyCanonical s op).map (·.1)

/-! ## The status edges -/

def Op.isRequeue : Op → Bool
  | .requeueStaleProcessing _ _ _ => true
  | .createTask _ _ _ => false
  | .markProcessing _ _ _ => false
  | .markCompleted _ _ _ => false
  | .markFailed _ _ _ _ _ => false
  | .requestCancel _ _ => false
  | .markCancelled _ _ => false
  | .updateTaskForDebounce _ _ _ => false
  | .readDebounced _ => false
  | .tryClaimDebounceMerge _ _ => false
  | .updateProgress _ _ => false
  | .sweepZombies _ _ _ => false
  | .sweepTimedOut _ _ _ => false

def Op.edge (op : Op) : TaskStatus → TaskStatus → Bool
  | .queued, .processing => true
  | .queued, .cancelled => true
  | .processing, .completed => true
  | .processing, .failed => true
  | .processing, .cancelling => true
  | .processing, .queued => op.isRequeue
  | .cancelling, .completed => true
  | .cancelling, .failed => true
  | .cancelling, .cancelled => true
  | _, _ => false

theorem Op.edge_live {op : Op} {a b : TaskStatus} (h : op.edge a b = true) : a.live = true := by
  cases a <;> first | rfl | (cases b <;> cases h)

/-! ## What an operation does to the table -/

/-- Nothing, a new row, or an update that keeps the ids and follows the edges. -/
inductive Change (op : Op) (t : Tasks) : Tasks → Prop
  | same : Change op t t
  | insert (r : TaskRow) (hnew : ∀ r' ∈ t, r'.taskId ≠ r.taskId) : Change op t (t ++ [r])
  | update (p : TaskRow → Bool) (f : TaskRow → TaskRow) (hid : ∀ r, (f r).taskId = r.taskId)
      (hedge : ∀ r ∈ t, p r = true → (f r).status = r.status ∨ op.edge r.status (f r).status = true) :
      Change op t (updateWhere p f t)

variable {wc : String → Option String} {op : Op} {s s' : State} {t t' : Tasks} {rep : Report}

theorem Change.keyed (h : Change op t t') (hkey : Keyed (fun r => r.taskId) t) : Keyed (fun r => r.taskId) t' := by
  cases h with
  | same => exact hkey
  | insert r hnew => exact hkey.insertRow (insertRow_eq_some.mpr ⟨hnew, rfl⟩)
  | update p f hid _ => exact hkey.updateWhere fun r _ => hid r

variable {r : TaskRow} {set : TaskRow → TaskRow}

theorem Change.rows (h : Change op t t') (hr : r ∈ t) :
    ∃ r' ∈ t', r'.taskId = r.taskId ∧ (r'.status = r.status ∨ op.edge r.status r'.status = true) := by
  cases h with
  | same => exact ⟨r, hr, rfl, .inl rfl⟩
  | insert new hnew => exact ⟨r, List.mem_append_left _ hr, rfl, .inl rfl⟩
  | update p f hid hedge =>
    refine ⟨_, mem_updateWhere_of_mem hr, ?_⟩
    split
    · exact ⟨hid r, hedge r hr ‹_›⟩
    · exact ⟨rfl, .inl rfl⟩

theorem change_guardedUpdate {taskId : String} {allowed : TaskStatus → Bool} {reject : Tasks → F42Error}
    (hid : ∀ r, (set r).taskId = r.taskId)
    (hedge : ∀ r, allowed r.status = true → (set r).status = r.status ∨ op.edge r.status (set r).status = true) :
    Change op t (guardedUpdate taskId allowed set reject t).1 := by
  rcases guardedUpdate_cases taskId allowed set reject t with
    ⟨_, _, _, _, h⟩ | ⟨_, h⟩ <;> rw [h]
  · exact .update _ _ hid fun r _ hg => hedge r (statusIn_iff.mp hg).2
  · exact .same

theorem change_sweepProcessing {due : TaskRow → Bool} (hid : ∀ r, (set r).taskId = r.taskId)
    (hedge : ∀ r, op.edge .processing (set r).status = true) : Change op t (sweepProcessing due set t).1 := by
  refine .update _ _ hid fun r _ hg => .inr ?_
  simp only [Bool.and_eq_true, beq_iff_eq] at hg
  rw [hg.1]
  exact hedge r

theorem edge_cancelTarget {a b : TaskStatus} (h : cancelTarget a = some b) : op.edge a b = true := by
  cases a <;> cases h <;> rfl

/-- The write of `requestCancel` is under the lock of its read, so it finds the status it has read. -/
theorem change_requestCancel (hkey : Keyed (fun r => r.taskId) t) (taskId : String) (now : Int) :
    Change op t (requestCancel taskId now t).1 := by
  rcases requestCancel_cases hkey taskId now with ⟨r, hr, target, hid, htarget, h⟩ | ⟨-, e, h⟩ <;> rw [h]
  · refine .update _ _ (fun _ => rfl) fun r' hr' hid' => .inr ?_
    rw [hkey.eq_of_key hr' hr ((beq_iff_eq.mp hid').trans hid.symm)]
    exact edge_cancelTarget htarget
  · exact .same

theorem inFlight_iff {a : TaskStatus} : inFlight a = true ↔ a = .processing ∨ a = .cancelling := by
  simp [inFlight]

theorem tryClaimDebounceMerge_fst (taskId : String) (now : Int) (t : Tasks) :
    (tryClaimDebounceMerge taskId now t).1 = (guardedUpdate taskId TaskStatus.carries
      (fun r => { r with updatedAt := now }) (conflict taskId) t).1 := by
  unfold tryClaimDebounceMerge
  split <;> simp_all

theorem State.refreshed_fst (s : State) (taskId : String) (x : Reply Unit) : (s.refreshed taskId x).1.tasks = x.1 := by
  rcases x with ⟨t, r⟩
  cases r <;> rfl

theorem change_of_exec (hkey : Keyed (fun r => r.taskId) s.tasks) (h : exec wc s op = some (s', rep)) :
    Change op s.tasks s'.tasks := by
  cases op with
  | createTask newId now task =>
    have hs' : (s.reply (createTask wc newId now task s.tasks)).1 = s' := by rw [Option.some.inj h]
    rw [← hs', State.reply]
    rcases createTask_cases wc newId now task s.tasks with ⟨hnew, he⟩ | ⟨-, he⟩ <;> rw [he]
    · exact .insert _ hnew
    · exact .same
  | markProcessing taskId workerId now =>
    cases Option.some.inj h
    exact change_guardedUpdate (fun _ => rfl) fun r hst => .inr (by rw [beq_iff_eq.mp hst]; rfl)
  | markCompleted taskId docId now | markFailed taskId errorCode errorMsg structuredData now =>
    cases Option.some.inj h
    refine change_guardedUpdate (fun _ => rfl) fun r hst => .inr ?_
    rcases inFlight_iff.mp hst with h | h <;> (rw [h]; rfl)
  | requestCancel taskId now =>
    cases Option.some.inj h
    exact change_requestCancel hkey taskId now
  | markCancelled taskId now =>
    cases Option.some.inj h
    refine change_guardedUpdate (fun _ => rfl) fun r hst => .inr ?_
    simp only [Bool.or_eq_true, beq_iff_eq] at hst
    rcases hst with h | h <;> (rw [h]; rfl)
  | updateTaskForDebounce taskId req now =>
    have hs' : (s.refreshed taskId (refreshQueued taskId req now s.tasks)).1 = s' := by rw [Option.some.inj h]
    rw [← hs', State.refreshed_fst]
    exact change_guardedUpdate (fun _ => rfl) fun r hst => .inl (beq_iff_eq.mp hst).symm
  | readDebounced taskId =>
    simp only [exec] at h
    split at h <;> cases h
    exact .same
  | tryClaimDebounceMerge taskId now =>
    have hs' : (s.reply (tryClaimDebounceMerge taskId now s.tasks)).1 = s' := by rw [Option.some.inj h]
    rw [← hs', State.reply, tryClaimDebounceMerge_fst]
    exact change_guardedUpdate (fun _ => rfl) fun r _ => .inl rfl
  | updateProgress task now =>
    cases Option.some.inj h
    exact change_guardedUpdate (fun _ => rfl) fun r _ => .inl rfl
  | sweepZombies nowUnix zombieHours now | sweepTimedOut nowUnix timeoutSeconds now
  | requeueStaleProcessing nowUnix zombieHours now =>
    cases Option.some.inj h
    exact change_sweepProcessing (fun _ => rfl) fun _ => rfl

/-! ## What a call reports -/

def Moved (taskId : String) (src : TaskStatus → Bool) (dst : TaskStatus) (t t' : Tasks) : Prop :=
  ∃ r ∈ t, r.taskId = taskId ∧ src r.status = true ∧ ∃ r' ∈ t', r'.taskId = taskId ∧ r'.status = dst

/-- The transition of the call is in the table. A sweep has moved every row that is due; a read has nothing to apply
beyond the write that came before it. -/
def Applied (wc : String → Option String) (t t' : Tasks) : Op → Prop
  | .createTask newId now task => rowById (newRow wc newId now task).taskId t = none ∧ newRow wc newId now task ∈ t'
  | .markProcessing taskId _ _ => Moved taskId (· == .queued) .processing t t'
  | .markCompleted taskId _ _ => Moved taskId inFlight .completed t t'
  | .markFailed taskId _ _ _ _ => Moved taskId inFlight .failed t t'
  | .requestCancel taskId _ =>
    Moved taskId (· == .queued) .cancelled t t' ∨ Moved taskId (· == .processing) .cancelling t t'
  | .markCancelled taskId _ => Moved taskId (fun a => a == .queued || a == .cancelling) .cancelled t t'
  | .updateTaskForDebounce taskId req now =>
    ∃ r ∈ t, r.taskId = taskId ∧ r.status = .queued ∧ refreshRow req now r ∈ t'
  | .readDebounced taskId => ∃ r ∈ t', r.taskId = taskId
  | .tryClaimDebounceMerge taskId now =>
    ∃ r ∈ t, r.taskId = taskId ∧ r.status.carries = true ∧ { r with updatedAt := now } ∈ t'
  | .updateProgress task now => ∃ r ∈ t, r.taskId = task.taskId ∧ progressRow task now r ∈ t'
  | .sweepZombies nowUnix zombieHours now => ∀ r ∈ t, r.status = .processing →
      r.updatedAt < zombieCutoff nowUnix zombieHours →
        sweepFailed "CX_ERR_ZOMBIE_TASK_CLEANUP" "Worker presumed crashed." now r ∈ t'
  | .sweepTimedOut nowUnix timeoutSeconds now => ∀ r ∈ t, r.status = .processing →
      (∃ at_, r.startedAt = some at_ ∧ at_ < (nowUnix - timeoutSeconds) * 1000) →
        sweepFailed "CX_ERR_TASK_TIMEOUT" "Task exceeded processing timeout." now r ∈ t'
  | .requeueStaleProcessing nowUnix zombieHours now => ∀ r ∈ t, r.status = .processing →
      zombieCutoff nowUnix zombieHours ≤ r.updatedAt →
        { r with status := .queued, workerId := -1, startedAt := none, updatedAt := now } ∈ t'

theorem guardedUpdate_ok_iff {taskId : String} {allowed : TaskStatus → Bool} {reject : Tasks → F42Error}
    {P : Tasks → Prop} (happ : ∀ r ∈ t, r.taskId = taskId → allowed r.status = true →
      P (updateWhere (statusIn taskId allowed) set t))
    (hrow : P t → ∃ r ∈ t, r.taskId = taskId ∧ allowed r.status = true) :
    (Report.of (guardedUpdate taskId allowed set reject t).2).isOk = true ↔
      P (guardedUpdate taskId allowed set reject t).1 := by
  rcases guardedUpdate_cases taskId allowed set reject t with
    ⟨r, hr, hid, hall, h⟩ | ⟨hnone, h⟩ <;> rw [h]
  · simp only [Report.of, Report.isOk, true_iff]
    exact happ r hr hid hall
  · simp only [Report.of, Report.isOk, Bool.false_eq_true, false_iff]
    intro hp
    obtain ⟨r, hr, hid, hall⟩ := hrow hp
    rw [hnone r hr hid] at hall
    exact absurd hall (by simp)

theorem guardedUpdate_moved {taskId : String} {allowed : TaskStatus → Bool} {reject : Tasks → F42Error}
    {dst : TaskStatus} (hid : ∀ r, (set r).taskId = r.taskId) (hdst : ∀ r, (set r).status = dst) :
    (Report.of (guardedUpdate taskId allowed set reject t).2).isOk = true ↔
      Moved taskId allowed dst t (guardedUpdate taskId allowed set reject t).1 := by
  apply guardedUpdate_ok_iff (P := fun t' => Moved taskId allowed dst t t')
  · intro r hr he hall
    exact ⟨r, hr, he, hall, set r, set_mem_updateWhere hr he hall, by rw [hid, he], hdst r⟩
  · rintro ⟨r, hr, he, hall, -⟩
    exact ⟨r, hr, he, hall⟩

theorem mem_sweepProcessing {due : TaskRow → Bool} (hr : r ∈ t) (hst : r.status = .processing) (hdue : due r = true) :
    set r ∈ (sweepProcessing due set t).1 := by
  have hmem := mem_updateWhere_of_mem (p := fun r => r.status == .processing && due r) (f := set) hr
  rwa [if_pos (by simp [hst, hdue])] at hmem

theorem requestCancel_applied (hkey : Keyed (fun r => r.taskId) t) (taskId : String) (now : Int) :
    (Report.of (requestCancel taskId now t).2).isOk = true ↔
      Moved taskId (· == .queued) .cancelled t (requestCancel taskId now t).1 ∨
        Moved taskId (· == .processing) .cancelling t (requestCancel taskId now t).1 := by
  rcases requestCancel_cases hkey taskId now with ⟨r, hr, target, hid, htarget, h⟩ | ⟨hnone, e, h⟩ <;> rw [h]
  · simp only [Report.of, Report.isOk, true_iff]
    have hmem := mem_updateWhere_of_mem (p := fun r => r.taskId == taskId) (f := cancelRow target now) hr
    rw [if_pos (by simp [hid])] at hmem
    cases hst : r.status <;> rw [hst] at htarget <;> cases htarget
    · exact .inl ⟨r, hr, hid, by simp [hst], _, hmem, hid, rfl⟩
    · exact .inr ⟨r, hr, hid, by simp [hst], _, hmem, hid, rfl⟩
  · simp only [Report.of, Report.isOk, Bool.false_eq_true, false_iff, not_or]
    constructor <;>
      (rintro ⟨r, hr, hid, hst, -⟩; have := hnone r hr hid; rw [beq_iff_eq.mp hst] at this; cases this)

theorem tryClaimDebounceMerge_applied (hkey : Keyed (fun r => r.taskId) t) (taskId : String) (now : Int) :
    (Report.of (tryClaimDebounceMerge taskId now t).2).isOk = true ↔
      ∃ r ∈ t, r.taskId = taskId ∧ r.status.carries = true ∧
        { r with updatedAt := now } ∈ (tryClaimDebounceMerge taskId now t).1 := by
  unfold tryClaimDebounceMerge
  rcases guardedUpdate_cases taskId TaskStatus.carries (fun r => { r with updatedAt := now }) (conflict taskId) t with
    ⟨r, hr, hid, hall, h⟩ | ⟨hnone, h⟩ <;> rw [h]
  · have hmem : { r with updatedAt := now } ∈
        updateWhere (statusIn taskId TaskStatus.carries) (fun r => { r with updatedAt := now }) t :=
      set_mem_updateWhere hr hid hall
    have hkey' := hkey.updateWhere (p := statusIn taskId TaskStatus.carries)
      (f := fun r => { r with updatedAt := now }) fun _ _ => rfl
    have hrow := rowById_of_mem hkey' hmem
    simp only [hid] at hrow
    simp only [getTask, hrow, Report.of, Report.isOk, true_iff]
    exact ⟨r, hr, hid, hall, hmem⟩
  · simp only [Report.of, Report.isOk, Bool.false_eq_true, false_iff, not_exists, not_and]
    intro r hr hid hall
    rw [hnone r hr hid] at hall
    exact absurd hall (by simp)

theorem createTask_applied (wc : String → Option String) (newId : String) (now : Int) (task : TaskInfo) (t : Tasks) :
    (Report.of (createTask wc newId now task t).2).isOk = true ↔
      rowById (newRow wc newId now task).taskId t = none ∧
        newRow wc newId now task ∈ (createTask wc newId now task t).1 := by
  rcases createTask_cases wc newId now task t with ⟨hnew, h⟩ | ⟨⟨r, hr, hid⟩, h⟩ <;> rw [h]
  · simp only [Report.of, Report.isOk, true_iff]
    exact ⟨lookup_eq_none.mpr hnew, by simp⟩
  · simp only [Report.of, Report.isOk, Bool.false_eq_true, false_iff, not_and]
    intro hnone
    exact absurd hid (lookup_eq_none.mp hnone r hr)

/-! ## Runs -/

/-- The primary key, and the rows of the debounce calls that are to be read. -/
structure Inv (s : State) : Prop where
  keyed : Keyed (fun r => r.taskId) s.tasks
  reading : ∀ taskId ∈ s.reading, ∃ r ∈ s.tasks, r.taskId = taskId

/-- Every call reports Ok exactly when its transition was applied. -/
theorem Inv.applied (hs : Inv s) (h : exec wc s op = some (s', rep)) :
    rep.isOk = true ↔ Applied wc s.tasks s'.tasks op := by
  cases op with
  | createTask newId now task =>
    cases Option.some.inj h
    exact createTask_applied wc newId now task s.tasks
  | markProcessing taskId workerId now | markCompleted taskId docId now
  | markFailed taskId errorCode errorMsg structuredData now | markCancelled taskId now =>
    cases Option.some.inj h
    exact guardedUpdate_moved (fun _ => rfl) fun _ => rfl
  | requestCancel taskId now =>
    cases Option.some.inj h
    exact requestCancel_applied hs.keyed taskId now
  | updateTaskForDebounce taskId req now =>
    have hok := @guardedUpdate_ok_iff s.tasks (refreshRow req now) taskId (· == .queued) (conflict taskId)
      (fun t' => ∃ r ∈ s.tasks, r.taskId = taskId ∧ r.status = .queued ∧ refreshRow req now r ∈ t')
      (fun r hr hid hall => ⟨r, hr, hid, by simpa using hall, set_mem_updateWhere hr hid hall⟩)
      (by rintro ⟨r, hr, hid, hst, -⟩; exact ⟨r, hr, hid, by simp [hst]⟩)
    have he : s.refreshed taskId (refreshQueued taskId req now s.tasks) = (s', rep) := Option.some.inj h
    unfold refreshQueued at he
    rcases hx : guardedUpdate taskId (· == .queued) (refreshRow req now) (conflict taskId) s.tasks with ⟨t', res⟩
    rw [hx] at he hok
    cases res with
    | ok u =>
      cases he
      exact hok
    | error e =>
      cases he
      exact hok
  | readDebounced taskId =>
    simp only [exec] at h
    split at h
    · rename_i hmem
      cases h
      obtain ⟨r, hr, rfl⟩ := hs.reading taskId hmem
      simp only [getTask, rowById_of_mem hs.keyed hr, Report.of, Report.isOk, true_iff]
      exact ⟨r, hr, rfl⟩
    · cases h
  | tryClaimDebounceMerge taskId now =>
    cases Option.some.inj h
    exact tryClaimDebounceMerge_applied hs.keyed taskId now
  | updateProgress task now =>
    cases Option.some.inj h
    apply guardedUpdate_ok_iff
      (P := fun t' => ∃ r ∈ s.tasks, r.taskId = task.taskId ∧ progressRow task now r ∈ t')
    · intro r hr hid hall
      exact ⟨r, hr, hid, set_mem_updateWhere hr hid hall⟩
    · rintro ⟨r, hr, hid, -⟩
      exact ⟨r, hr, hid, rfl⟩
  | sweepZombies nowUnix zombieHours now | requeueStaleProcessing nowUnix zombieHours now =>
    cases Option.some.inj h
    simp only [Report.isOk, true_iff]
    exact fun r hr hst hdue => mem_sweepProcessing hr hst (by simpa using hdue)
  | sweepTimedOut nowUnix timeoutSeconds now =>
    cases Option.some.inj h
    simp only [Report.isOk, true_iff]
    rintro r hr hst ⟨at_, hat, hdue⟩
    exact mem_sweepProcessing hr hst (by simpa [hat] using hdue)

/-- The calls to be read grow only by a debounce write that found its row. -/
theorem reading_of_exec (h : exec wc s op = some (s', rep)) :
    ∀ taskId ∈ s'.reading, taskId ∈ s.reading ∨ ∃ r ∈ s.tasks, r.taskId = taskId := by
  intro taskId hmem
  cases op with
  | updateTaskForDebounce id req now =>
    have he : s.refreshed id (refreshQueued id req now s.tasks) = (s', rep) := Option.some.inj h
    unfold refreshQueued at he
    rcases guardedUpdate_cases id (· == .queued) (refreshRow req now) (conflict id) s.tasks with
      ⟨r, hr, hid, -, hx⟩ | ⟨-, hx⟩ <;> rw [hx] at he <;> cases he
    · rcases List.mem_cons.mp hmem with rfl | hmem
      · exact .inr ⟨r, hr, hid⟩
      · exact .inl hmem
    · exact .inl hmem
  | readDebounced id =>
    simp only [exec] at h
    split at h <;> cases h
    exact .inl (List.mem_of_mem_erase hmem)
  | createTask | markProcessing | markCompleted | markFailed | requestCancel | markCancelled | tryClaimDebounceMerge
  | updateProgress | sweepZombies | sweepTimedOut | requeueStaleProcessing => cases Option.some.inj h; exact .inl hmem

theorem step_eq_some (h : step wc s op = some s') : ∃ rep, exec wc s op = some (s', rep) := by
  simp only [step, Option.map_eq_some_iff, Prod.exists, exists_and_right, exists_eq_right] at h
  exact h

theorem Inv.step (hs : Inv s) (h : step wc s op = some s') : Inv s' := by
  obtain ⟨rep, h⟩ := step_eq_some h
  have hchange := change_of_exec hs.keyed h
  have hstay : ∀ r ∈ s.tasks, ∃ r' ∈ s'.tasks, r'.taskId = r.taskId := by
    intro r hr
    obtain ⟨r', hr', hid, -⟩ := hchange.rows hr
    exact ⟨r', hr', hid⟩
  refine ⟨hchange.keyed hs.keyed, fun taskId hmem => ?_⟩
  have hrow : ∃ r ∈ s.tasks, r.taskId = taskId := by
    rcases reading_of_exec h taskId hmem with hmem | hrow
    · exact hs.reading taskId hmem
    · exact hrow
  obtain ⟨r, hr, rfl⟩ := hrow
  exact hstay r hr

theorem inv_of_run {tasks : Tasks} (hkey : Keyed (fun r => r.taskId) tasks) {ops : List Op}
    (h : run (StatusMachine.step wc) ⟨tasks, []⟩ ops = some s) : Inv s :=
  run_inv (fun hs _ h => hs.step h) ⟨hkey, by intro _ h; cases h⟩ (along_true _ _) h

theorem Inv.status_step (hs : Inv s) (h : StatusMachine.step wc s op = some s') {r' : TaskRow} (hr : r ∈ s.tasks)
    (hr' : r' ∈ s'.tasks) (hid : r'.taskId = r.taskId) : r'.status = r.status ∨ op.edge r.status r'.status = true := by
  have hs' := hs.step h
  obtain ⟨rep, h⟩ := step_eq_some h
  obtain ⟨r'', hr'', hid'', hedge⟩ := (change_of_exec hs.keyed h).rows hr
  rw [hs'.keyed.eq_of_key hr' hr'' (hid.trans hid''.symm)]
  exact hedge

theorem Inv.terminal_run (hs : Inv s) {ops : List Op} (h : run (StatusMachine.step wc) s ops = some s')
    (hr : r ∈ s.tasks) (hterm : r.status.live = false) :
    ∃ r' ∈ s'.tasks, r'.taskId = r.taskId ∧ r'.status = r.status := by
  induction ops generalizing s r with
  | nil =>
    cases h
    exact ⟨r, hr, rfl, rfl⟩
  | cons op ops ih =>
    obtain ⟨u, hu, h⟩ := run_cons.mp h
    obtain ⟨rep, hexec⟩ := step_eq_some hu
    obtain ⟨r₁, hr₁, hid₁, hedge⟩ := (change_of_exec hs.keyed hexec).rows hr
    have hsame : r₁.status = r.status := by
      rcases hedge with hedge | hedge
      · exact hedge
      · rw [Op.edge_live hedge] at hterm
        cases hterm
    obtain ⟨r', hr', hid', hst'⟩ := ih (hs.step hu) h hr₁ (by rw [hsame]; exact hterm)
    exact ⟨r', hr', hid'.trans hid₁, hst'.trans hsame⟩

/-! ## Main result -/

/-- **The status machine.** From any table with its primary key, in every state reached by any interleaving of the
operations: the next critical section changes statuses only along the edges and reports Ok exactly when its
transition was applied, and a terminal row has the status it has now in every later state. -/
theorem status_machine (wc : String → Option String) (tasks : Tasks) (hkey : Keyed (fun r => r.taskId) tasks)
    (ops : List Op) (s : State) (hrun : run (step wc) ⟨tasks, []⟩ ops = some s) :
    (∀ op s' rep, exec wc s op = some (s', rep) →
      (∀ r ∈ s.tasks, ∀ r' ∈ s'.tasks, r'.taskId = r.taskId →
        r'.status = r.status ∨ op.edge r.status r'.status = true) ∧
      (rep.isOk = true ↔ Applied wc s.tasks s'.tasks op)) ∧
    ∀ ops' s', run (step wc) s ops' = some s' → ∀ r ∈ s.tasks, r.status.live = false →
      ∀ r' ∈ s'.tasks, r'.taskId = r.taskId → r'.status = r.status := by
  have hs := inv_of_run hkey hrun
  refine ⟨fun op s' rep h => ⟨?_, hs.applied h⟩, ?_⟩
  · intro r hr r' hr' hid
    exact hs.status_step (by rw [step, h]; rfl) hr hr' hid
  · intro ops' s' hrun' r hr hterm r' hr' hid
    have hs' : Inv s' := run_inv (fun hs _ h => hs.step h) hs (along_true _ _) hrun'
    obtain ⟨r'', hr'', hid'', hst⟩ := hs.terminal_run hrun' hr hterm
    rw [hs'.keyed.eq_of_key hr' hr'' (hid.trans hid''.symm)]
    exact hst

def blankTask : TaskInfo :=
  { taskId := "t", namespaceId := "n", filename := "f", filepath := "", docId := "d", contentHash := "h",
    status := .queued, taskType := 1, cancelRequested := false, totalPages := 0, processedPages := 0,
    failedPages := [], etaSeconds := -1, currentPhase := "", workerId := -1, traceId := "", errorCode := "",
    errorMsg := "", structuredData := "", createdAt := 0, updatedAt := 0, startedAt := none, completedAt := none,
    metadataJson := "" }

/-- A task that is cancelled while a worker runs it; the worker acknowledges. -/
def cancelledInFlight : List Op :=
  [.createTask "t" 1 blankTask, .markProcessing "t" 1 2, .requestCancel "t" 3, .markCancelled "t" 4]

theorem status_machine_cancelledInFlight : ∃ s, run (step fun _ => none) ⟨[], []⟩ cancelledInFlight = some s ∧
    ∃ r ∈ s.tasks, r.status = .cancelled ∧ ∀ ops' s', run (step fun _ => none) s ops' = some s' →
      ∀ r' ∈ s'.tasks, r'.taskId = r.taskId → r'.status = .cancelled := by
  have h : (run (step fun _ => none) ⟨[], []⟩ cancelledInFlight).any
      (fun s => s.tasks.any fun r => r.status == .cancelled) = true := by
    decide +kernel
  obtain ⟨s, hs, h⟩ := (Option.any_eq_true _ _).mp h
  simp only [List.any_eq_true, beq_iff_eq] at h
  obtain ⟨r, hr, hst⟩ := h
  refine ⟨s, hs, r, hr, hst, fun ops' s' hrun r' hr' hid => ?_⟩
  rw [← hst]
  exact (status_machine (fun _ => none) [] Keyed.nil cancelledInFlight s hs).2 ops' s' hrun r hr (by rw [hst]; rfl)
    r' hr' hid

end Cortrix.Async.StatusMachine
