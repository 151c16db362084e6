import Cortrix.Async.TaskScheduler

/-!
# What a step of the scheduler does

* `Advanced r r'` : what may happen to a row outside `Enqueue`; its submission stays, and so does a terminal status;
* `Effect env s a s'` : all a step may do to the table, to the call of `Enqueue` and to the pending releases;
  `effect_of_step` : every step is one of these.
-/

namespace Cortrix.Async.Scheduler
open Lib

/-! ## Rows -/

/-- A row before and after the transitions of other threads. -/
structure Advanced (r r' : TaskRow) : Prop where
  taskId : r'.taskId = r.taskId
  namespaceId : r'.namespaceId = r.namespaceId
  taskType : r'.taskType = r.taskType
  filepath : r'.filepath = r.filepath
  filepathCanonical : r'.filepathCanonical = r.filepathCanonical
  status : r'.status = r.status ∨ r.status.live = true ∧ r'.status ≠ .queued
  docId : r'.docId = r.docId ∨ r'.status = .completed

def Advances (t t' : Tasks) : Prop := ∃ f : TaskRow → TaskRow, t' = t.map f ∧ ∀ r ∈ t, Advanced r (f r)

def Terminal (taskId : String) (t : Tasks) : Prop := ∃ r ∈ t, r.taskId = taskId ∧ r.status.live = false

variable {env : Env} {s s' : State} {a : Act} {t t' : Tasks} {r r' : TaskRow} {taskId : String}

theorem Advanced.refl (r : TaskRow) : Advanced r r := ⟨rfl, rfl, rfl, rfl, rfl, .inl rfl, .inl rfl⟩

theorem Advanced.live (h : Advanced r r') (hlive : r'.status.live = true) : r.status.live = true := by
  rcases h.status with he | ⟨hl, -⟩
  · rw [← he]
    exact hlive
  · exact hl

theorem Advanced.of_queued (h : Advanced r r') (hq : r'.status = .queued) :
    r.status = .queued ∧ r'.docId = r.docId := by
  constructor
  · rcases h.status with he | ⟨-, hne⟩
    · rw [← he, hq]
    · exact absurd hq hne
  · rcases h.docId with he | hc
    · exact he
    · rw [hq] at hc
      cases hc

theorem Advances.refl (t : Tasks) : Advances t t :=
  ⟨fun r => r, by simp, fun r _ => Advanced.refl r⟩

theorem Advances.mem (h : Advances t t') (hr' : r' ∈ t') : ∃ r ∈ t, Advanced r r' := by
  obtain ⟨f, rfl, hf⟩ := h
  obtain ⟨r, hr, rfl⟩ := List.mem_map.mp hr'
  exact ⟨r, hr, hf r hr⟩

theorem Advances.keyed (h : Advances t t') (hkey : Keyed (fun r => r.taskId) t) : Keyed (fun r => r.taskId) t' := by
  obtain ⟨f, rfl, hf⟩ := h
  have hmap : (t.map f).map (fun r => r.taskId) = t.map fun r => r.taskId := by
    rw [List.map_map]
    exact List.map_congr_left fun r hr => (hf r hr).taskId
  rw [Keyed, hmap]
  exact hkey

theorem Advances.terminal (h : Advances t t') (ht : Terminal taskId t) : Terminal taskId t' := by
  obtain ⟨f, rfl, hf⟩ := h
  obtain ⟨r, hr, hid, hdead⟩ := ht
  refine ⟨f r, List.mem_map_of_mem hr, (hf r hr).taskId.trans hid, ?_⟩
  by_contra hlive
  rw [(hf r hr).live (by simpa using hlive)] at hdead
  cases hdead

theorem advances_updateWhere {p : TaskRow → Bool} {f : TaskRow → TaskRow}
    (hf : ∀ r ∈ t, p r = true → Advanced r (f r)) : Advances t (updateWhere p f t) := by
  refine ⟨fun r => if p r then f r else r, rfl, fun r hr => ?_⟩
  show Advanced r (if p r then f r else r)
  split
  · exact hf r hr ‹_›
  · exact Advanced.refl r

theorem advances_guardedUpdate {allowed : TaskStatus → Bool} {set : TaskRow → TaskRow} {reject : Tasks → F42Error}
    (hset : ∀ r, allowed r.status = true → Advanced r (set r)) :
    Advances t (guardedUpdate taskId allowed set reject t).1 := by
  rcases guardedUpdate_cases taskId allowed set reject t with ⟨_, _, _, _, h⟩ | ⟨_, h⟩ <;> rw [h]
  · exact advances_updateWhere fun r _ hg => hset r (statusIn_iff.mp hg).2
  · exact Advances.refl t

theorem advances_sweepProcessing {due : TaskRow → Bool} {set : TaskRow → TaskRow}
    (hset : ∀ r, r.status = .processing → Advanced r (set r)) : Advances t (sweepProcessing due set t).1 := by
  refine advances_updateWhere fun r _ hg => hset r ?_
  simp only [Bool.and_eq_true, beq_iff_eq] at hg
  exact hg.1

theorem live_of_inFlight {st : TaskStatus} (h : inFlight st = true) : st.live = true := by
  cases st <;> first | rfl | cases h

theorem live_of_cancellable {st : TaskStatus} (h : (st == .queued || st == .cancelling) = true) : st.live = true := by
  cases st <;> first | rfl | cases h

theorem advances_markProcessing (workerId now : Int) : Advances t (markProcessing taskId workerId now t).1 := by
  refine advances_guardedUpdate fun r hst => ⟨rfl, rfl, rfl, rfl, rfl, .inr ⟨?_, by simp⟩, .inl rfl⟩
  rw [beq_iff_eq.mp hst]
  rfl

theorem advances_markCompleted (docId : String) (now : Int) : Advances t (markCompleted taskId docId now t).1 :=
  advances_guardedUpdate fun _ hst =>
    ⟨rfl, rfl, rfl, rfl, rfl, .inr ⟨live_of_inFlight hst, by simp⟩, .inr rfl⟩

theorem advances_markFailed (code msg data : String) (now : Int) :
    Advances t (markFailed taskId code msg data now t).1 :=
  advances_guardedUpdate fun _ hst =>
    ⟨rfl, rfl, rfl, rfl, rfl, .inr ⟨live_of_inFlight hst, by simp⟩, .inl rfl⟩

theorem advances_markCancelled (now : Int) : Advances t (markCancelled taskId now t).1 :=
  advances_guardedUpdate fun _ hst =>
    ⟨rfl, rfl, rfl, rfl, rfl, .inr ⟨live_of_cancellable hst, by simp⟩, .inl rfl⟩

theorem cancelTarget_live {st target : TaskStatus} (h : cancelTarget st = some target) :
    st.live = true ∧ target ≠ .queued := by
  cases st <;> cases h <;> exact ⟨rfl, by simp⟩

theorem cancelTarget_eq_cancelled {st : TaskStatus} (h : cancelTarget st = some .cancelled) : st = .queued := by
  cases st <;> first | rfl | cases h

theorem advances_requestCancel (hkey : Keyed (fun r => r.taskId) t) (taskId : String) (now : Int) :
    Advances t (requestCancel taskId now t).1 := by
  rcases requestCancel_cases hkey taskId now with ⟨r, hr, target, hid, htarget, h⟩ | ⟨-, e, h⟩ <;> rw [h]
  · refine advances_updateWhere fun r' hr' hid' => ⟨rfl, rfl, rfl, rfl, rfl, .inr ?_, .inl rfl⟩
    rw [hkey.eq_of_key hr' hr ((beq_iff_eq.mp hid').trans hid.symm)]
    exact cancelTarget_live htarget
  · exact Advances.refl t

theorem advances_updateProgress (task : TaskInfo) (now : Int) : Advances t (updateProgress task now t).1 :=
  advances_guardedUpdate fun _ _ => ⟨rfl, rfl, rfl, rfl, rfl, .inl rfl, .inl rfl⟩

theorem advances_sweepFailed (due : TaskRow → Bool) (code msg : String) (now : Int) :
    Advances t (sweepProcessing due (sweepFailed code msg now) t).1 := by
  refine advances_sweepProcessing fun r hst => ⟨rfl, rfl, rfl, rfl, rfl, .inr ⟨?_, by simp [sweepFailed]⟩, .inl rfl⟩
  rw [hst]
  rfl

theorem advances_transition (hkey : Keyed (fun r => r.taskId) t) (tr : Transition) : Advances t (tr.apply t) := by
  cases tr with
  | markProcessing taskId workerId now => exact advances_markProcessing workerId now
  | markCompleted taskId docId now => exact advances_markCompleted docId now
  | markFailed taskId code msg data now => exact advances_markFailed code msg data now
  | markCancelled taskId now => exact advances_markCancelled now
  | requestCancel taskId now => exact advances_requestCancel hkey taskId now
  | updateProgress task now => exact advances_updateProgress task now
  | sweepZombies nowUnix zombieHours now => exact advances_sweepFailed _ _ _ now
  | sweepTimedOut nowUnix timeoutSeconds now => exact advances_sweepFailed _ _ _ now

/-! ## Steps -/

/-- No `Enqueue` holds the mutex. -/
def Sched.outside : Sched → Bool
  | .idle => true
  | .dequeuing _ _ => true
  | .looked _ _ => false
  | .creating _ => false
  | .refreshed _ _ _ => false
  | .accepted _ _ _ _ => false

/-- The release that the step leaves pending, of a task that is live before and not after. -/
def givesUp (s : State) : Act → Option Release
  | .finalize workerId _ _ =>
    ((heldBy s workerId).filter fun h => s.tasks.any (statusIn h.task.taskId TaskStatus.live)).map
      fun h => ⟨h.task.filepath, h.task.taskId⟩
  | .cancelTask taskId _ =>
    ((rowById taskId s.tasks).filter fun r => r.status == .queued).map fun r => ⟨r.filepath, r.taskId⟩
  | _ => none

/-- What a step does to the table, to the call of `Enqueue` and to the pending releases. -/
inductive Effect (env : Env) (s : State) : Act → State → Prop
  | looked {req : SubmitRequest} {window nowSecs : Int} {out : Option TaskInfo} (hidle : s.sched = .idle)
      (hlook : lookupRecent req window nowSecs s.tasks out = true) :
      Effect env s (.enqueue req window nowSecs out) { s with sched := decideEnqueue req out, calls := s.calls + 1 }
  | claimed {req : SubmitRequest} {recent : TaskInfo} {now : Int} {t : Tasks} {row : TaskRow}
      (hsched : s.sched = .looked req recent) (hhash : recent.contentHash = req.contentHash)
      (hcarries : ∃ r ∈ s.tasks, r.taskId = recent.taskId ∧ r.status.carries = true)
      (hrows : Advances s.tasks t) (hrow : row ∈ t) (hid : row.taskId = recent.taskId) :
      Effect env s (.enqueueClaim now)
        { s with tasks := t, sched := .accepted (mergeRelease req row.toTaskInfo) req .merged row.toTaskInfo }
  | fellThrough {a : Act} {req : SubmitRequest} {t : Tasks} (hsched : s.sched.outside = false)
      (hrows : Advances s.tasks t) : Effect env s a { s with tasks := t, sched := .creating req }
  | refreshed {req : SubmitRequest} {recent : TaskInfo} {now : Int} {row : TaskRow}
      (hsched : s.sched = .looked req recent) (hhash : recent.contentHash ≠ req.contentHash)
      (hrow : row ∈ s.tasks) (hid : row.taskId = recent.taskId) (hq : row.status = .queued) :
      Effect env s (.enqueueRefresh now)
        { s with
          tasks := updateWhere (statusIn recent.taskId (· == .queued)) (refreshRow req now) s.tasks
          sched := .refreshed req recent.taskId recent.filepath }
  | read {req : SubmitRequest} {taskId superseded : String} {row : TaskRow}
      (hsched : s.sched = .refreshed req taskId superseded) (hrow : row ∈ s.tasks) (hid : row.taskId = taskId) :
      Effect env s .enqueueRead
        { s with sched := .accepted (refreshRelease req taskId superseded) req .refreshed row.toTaskInfo }
  | created {req : SubmitRequest} {newId : String} {now : Int} (hsched : s.sched = .creating req)
      (hnew : ∀ r ∈ s.tasks, r.taskId ≠ (newRow env.weaklyCanonical newId now (requestTask req)).taskId) :
      Effect env s (.enqueueCreate newId now)
        { s with
          tasks := s.tasks ++ [newRow env.weaklyCanonical newId now (requestTask req)]
          sched := .accepted none req .created (newRow env.weaklyCanonical newId now (requestTask req)).toTaskInfo }
  | released {rel : Release} {req : SubmitRequest} {disposition : EnqueueDisposition} {task : TaskInfo}
      (hsched : s.sched = .accepted (some rel) req disposition task) :
      Effect env s .enqueueRelease { s with sched := .accepted none req disposition task }
  | quiet {a : Act} {s' : State} (hrows : Advances s.tasks s'.tasks)
      (hsched : s'.sched = s.sched ∨ s'.sched.outside = true) (hcalls : s'.calls = s.calls)
      (hreleases : ∀ rel ∈ s'.releases,
        rel ∈ s.releases ∨ givesUp s a = some rel ∧ Terminal rel.excludeTaskId s'.tasks) :
      Effect env s a s'

theorem Effect.ofTable {a : Act} {t : Tasks} {workers : List Held} {activeDocs : List (String × String)}
    {sched : Sched} (hrows : Advances s.tasks t) (hsched : sched = s.sched ∨ sched.outside = true) :
    Effect env s a { s with tasks := t, sched, workers, activeDocs } :=
  .quiet hrows hsched rfl fun _ hrel => .inl hrel

theorem effect_claimStep {now : Int} (h : claimStep s now = some s') : Effect env s (.enqueueClaim now) s' := by
  unfold claimStep at h
  split at h
  · rename_i req recent hs
    have houtside : s.sched.outside = false := by rw [hs]; rfl
    split at h
    · rename_i hhash
      have hadv : Advances s.tasks (tryClaimDebounceMerge recent.taskId now s.tasks).1 := by
        rw [StatusMachine.tryClaimDebounceMerge_fst]
        exact advances_guardedUpdate fun _ _ => ⟨rfl, rfl, rfl, rfl, rfl, .inl rfl, .inl rfl⟩
      split at h
      · rename_i t claimed hclaim
        cases h
        rw [hclaim] at hadv
        obtain ⟨hcarries, row, hrow, hid, rfl⟩ := tryClaimDebounceMerge_eq_ok hclaim
        exact .claimed hs hhash hcarries hadv hrow hid
      · rename_i t e hclaim
        cases h
        rw [hclaim] at hadv
        exact .fellThrough houtside hadv
    · cases h
  · cases h

theorem effect_refreshStep {now : Int} (h : refreshStep s now = some s') : Effect env s (.enqueueRefresh now) s' := by
  unfold refreshStep at h
  split at h
  · rename_i req recent hs
    have houtside : s.sched.outside = false := by rw [hs]; rfl
    split at h
    · cases h
    · rename_i hhash
      rcases guardedUpdate_cases recent.taskId (· == .queued) (refreshRow req now) (conflict recent.taskId) s.tasks with
        ⟨row, hrow, hid, hq, he⟩ | ⟨-, he⟩ <;> simp only [refreshQueued, he] at h <;> cases h
      · exact .refreshed hs hhash hrow hid (beq_iff_eq.mp hq)
      · exact .fellThrough houtside (Advances.refl _)
  · cases h

theorem effect_readStep (h : readStep s = some s') : Effect env s .enqueueRead s' := by
  unfold readStep at h
  split at h
  · rename_i req taskId superseded hs
    have houtside : s.sched.outside = false := by rw [hs]; rfl
    split at h <;> cases h
    · rename_i task hget
      obtain ⟨row, hrow, hid, rfl⟩ := getTask_eq_ok hget
      exact .read hs hrow hid
    · exact .fellThrough houtside (Advances.refl _)
  · cases h

theorem effect_createStep {newId : String} {now : Int} (h : createStep env s newId now = some s') :
    Effect env s (.enqueueCreate newId now) s' := by
  unfold createStep at h
  split at h
  · rename_i req hs
    rcases createTask_cases env.weaklyCanonical newId now (requestTask req) s.tasks with ⟨hnew, he⟩ | ⟨-, he⟩ <;>
      simp only [he] at h <;> cases h
    · exact .created hs hnew
    · exact .ofTable (Advances.refl _) (.inr rfl)
  · cases h

theorem advances_mark (outcome : Outcome) (now : Int) : Advances t (outcome.mark taskId now t).1 := by
  cases outcome with
  | complete docId => exact advances_markCompleted docId now
  | fail code msg data => exact advances_markFailed code msg data now
  | cancel => exact advances_markCancelled now

theorem ended_guardedUpdate {allowed : TaskStatus → Bool} {set : TaskRow → TaskRow} {reject : Tasks → F42Error}
    {u : Unit} (h : guardedUpdate taskId allowed set reject t = (t', .ok u))
    (hlive : ∀ st, allowed st = true → st.live = true)
    (hset : ∀ r, (set r).taskId = r.taskId ∧ (set r).status.live = false) :
    t.any (statusIn taskId TaskStatus.live) = true ∧ Terminal taskId t' := by
  rcases guardedUpdate_cases taskId allowed set reject t with ⟨r, hr, hid, hall, he⟩ | ⟨-, he⟩ <;>
    rw [he] at h <;> cases h
  constructor
  · exact List.any_eq_true.mpr ⟨r, hr, statusIn_iff.mpr ⟨hid, hlive _ hall⟩⟩
  · exact ⟨set r, set_mem_updateWhere hr hid hall, (hset r).1.trans hid, (hset r).2⟩

theorem ended_mark {outcome : Outcome} {now : Int} {u : Unit} (h : outcome.mark taskId now t = (t', .ok u)) :
    t.any (statusIn taskId TaskStatus.live) = true ∧ Terminal taskId t' := by
  cases outcome with
  | complete docId =>
    unfold Outcome.mark markCompleted at h
    exact ended_guardedUpdate h (fun _ => live_of_inFlight) fun _ => ⟨rfl, rfl⟩
  | fail code msg data =>
    unfold Outcome.mark markFailed at h
    exact ended_guardedUpdate h (fun _ => live_of_inFlight) fun _ => ⟨rfl, rfl⟩
  | cancel =>
    unfold Outcome.mark markCancelled at h
    exact ended_guardedUpdate h (fun _ => live_of_cancellable) fun _ => ⟨rfl, rfl⟩

theorem effect_finalizeStep {workerId now : Int} {outcome : Outcome}
    (h : finalizeStep s workerId outcome now = some s') : Effect env s (.finalize workerId outcome now) s' := by
  unfold finalizeStep at h
  split at h
  · cases h
  · rename_i held hheld
    have hadv : Advances s.tasks (outcome.mark held.task.taskId now s.tasks).1 := advances_mark outcome now
    split at h
    · rename_i t u hmark
      cases h
      rw [hmark] at hadv
      refine .quiet hadv (.inl rfl) rfl fun rel hrel => ?_
      rcases List.mem_cons.mp hrel with rfl | hrel
      · obtain ⟨hlive, hdead⟩ := ended_mark hmark
        refine .inr ⟨?_, hdead⟩
        simp only [givesUp, hheld, Option.filter_some, hlive, if_true, Option.map_some]
      · exact .inl hrel
    · rename_i t e hmark
      cases h
      rw [hmark] at hadv
      exact .ofTable hadv (.inl rfl)

theorem effect_cancelStep (hkey : Keyed (fun r => r.taskId) s.tasks) {now : Int}
    (h : cancelStep s taskId now = some s') : Effect env s (.cancelTask taskId now) s' := by
  have hadv := advances_requestCancel hkey taskId now
  unfold cancelStep at h
  rcases requestCancel_cases hkey taskId now with ⟨r, hr, target, hid, htarget, he⟩ | ⟨-, e, he⟩
  · rw [he] at hadv
    simp only [he] at h
    split at h <;> cases h
    · rename_i hst
      refine .quiet hadv (.inl rfl) rfl fun rel hrel => ?_
      rcases List.mem_cons.mp hrel with rfl | hrel
      · refine .inr ⟨?_, cancelRow target now r, ?_, rfl, ?_⟩
        · subst hid
          have hq : r.status = .queued := cancelTarget_eq_cancelled (htarget.trans (congrArg some hst))
          simp only [givesUp, rowById_of_mem hkey hr, Option.filter_some, hq, beq_self_eq_true, if_true, Option.map_some]
          rfl
        · have hmem := mem_updateWhere_of_mem (p := fun r => r.taskId == taskId) (f := cancelRow target now) hr
          rwa [if_pos (beq_iff_eq.mpr hid)] at hmem
        · rw [hst]
          rfl
      · exact .inl hrel
    · exact .ofTable hadv (.inl rfl)
  · simp only [he] at h
    cases h
    exact .ofTable (Advances.refl _) (.inl rfl)

theorem effect_of_step (hkey : Keyed (fun r => r.taskId) s.tasks) (h : step env s a = some s') :
    Effect env s a s' := by
  cases a with
  | enqueue req window nowSecs out =>
    simp only [step] at h
    split at h <;> cases h
    rename_i hc
    exact .looked hc.1 hc.2
  | enqueueClaim now => exact effect_claimStep h
  | enqueueRefresh now => exact effect_refreshStep h
  | enqueueRead => exact effect_readStep h
  | enqueueCreate newId now => exact effect_createStep h
  | enqueueRelease =>
    simp only [step] at h
    split at h <;> cases h
    rename_i hs
    exact .released hs
  | enqueueReturn | dequeueFault =>
    simp only [step] at h
    split at h <;> cases h
    exact .ofTable (Advances.refl _) (.inr rfl)
  | dequeue workerId out =>
    simp only [step] at h
    split at h
    · cases out with
      | none =>
        cases h
        exact .ofTable (Advances.refl _) (.inl rfl)
      | some task =>
        cases h
        exact .ofTable (Advances.refl _) (.inr rfl)
    · cases h
  | dequeueMark now =>
    simp only [step, markStep] at h
    split at h
    · rename_i workerId task hs
      have hadv : Advances s.tasks (markProcessing task.taskId workerId now s.tasks).1 :=
        advances_markProcessing workerId now
      split at h <;> cases h <;> rename_i hmark <;> rw [hmark] at hadv <;> exact .ofTable hadv (.inr rfl)
    · cases h
  | finalize workerId outcome now => exact effect_finalizeStep h
  | finished workerId outcome =>
    simp only [step] at h
    split at h <;> cases h
    exact .ofTable (Advances.refl _) (.inl rfl)
  | cancelTask taskId now => exact effect_cancelStep hkey h
  | release rel =>
    simp only [step] at h
    split at h <;> cases h
    exact .quiet (Advances.refl _) (.inl rfl) rfl fun rel' hrel => .inl (List.mem_of_mem_erase hrel)
  | transition tr =>
    cases h
    exact .ofTable (advances_transition hkey tr) (.inl rfl)

theorem keyed_of_step (hkey : Keyed (fun r => r.taskId) s.tasks) (h : step env s a = some s') :
    Keyed (fun r => r.taskId) s'.tasks := by
  cases effect_of_step hkey h with
  | looked | read | released => exact hkey
  | claimed _ _ _ hrows => exact hrows.keyed hkey
  | fellThrough _ hrows => exact hrows.keyed hkey
  | refreshed => exact hkey.updateWhere fun _ _ => rfl
  | created _ hnew => exact hkey.insertRow (insertRow_eq_some.mpr ⟨hnew, rfl⟩)
  | quiet hrows => exact hrows.keyed hkey

end Cortrix.Async.Scheduler
