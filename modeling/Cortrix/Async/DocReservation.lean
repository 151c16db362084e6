import Cortrix.Async.TaskScheduler

/-!
# One worker per document

`active_docs_` is the set of documents that workers hold, the document `Dequeue` has reserved and not yet marked
included; nothing else keeps a document blocked.

* `Handover s s'` : all a step may do to the reservation and to the workers;
* `Exclusive.step` : the invariant over one step; `one_worker_per_document` : over every run.
-/

namespace Cortrix.Async.Scheduler
open Lib

/-- The task in the hands of a `Dequeue` call that has not returned. -/
def Sched.reserving : Sched → List Held
  | .dequeuing workerId task => [⟨workerId, task⟩]
  | .idle => []
  | .looked _ _ => []
  | .creating _ => []
  | .refreshed _ _ _ => []
  | .accepted _ _ _ _ => []

def heldDocs (held : List Held) : List (String × String) :=
  (held.filter fun h => h.task.docId != "").map fun h => docOf h.task

def State.holders (s : State) : List Held := s.sched.reserving ++ s.workers

variable {env : Env} {s s' : State} {held : List Held} {d : String × String} {task : TaskInfo}

/-! ## Reservations -/

theorem mem_reserve {active : List (String × String)} :
    d ∈ reserve task active ↔ task.docId ≠ "" ∧ d = docOf task ∨ d ∈ active := by
  unfold reserve
  split
  · rw [List.mem_insert_iff]
    tauto
  · tauto

theorem mem_unreserve {active : List (String × String)} :
    d ∈ unreserve task active ↔ d ∈ active ∧ ¬ (task.docId ≠ "" ∧ d = docOf task) := by
  unfold unreserve
  split
  · rw [List.mem_filter, bne_iff_ne]
    tauto
  · tauto

/-- The set is the documents in hand, each of them held once, by one worker. -/
structure Exclusive (s : State) : Prop where
  workers : (s.holders.map Held.workerId).Nodup
  docs : (heldDocs s.holders).Nodup
  active : ∀ d, d ∈ s.activeDocs ↔ d ∈ heldDocs s.holders

/-! ## One step -/

/-- What a step does to the reservation and to the workers. -/
inductive Handover (s s' : State) : Prop
  | same (hsched : s'.sched.reserving = s.sched.reserving) (hworkers : s'.workers = s.workers)
      (hactive : s'.activeDocs = s.activeDocs)
  | reserved (workerId : Int) (task : TaskInfo) (hidle : s.sched.reserving = [])
      (hfree : ∀ h ∈ s.workers, h.workerId ≠ workerId) (hdoc : task.docId ≠ "" → docOf task ∉ s.activeDocs)
      (hsched : s'.sched.reserving = [⟨workerId, task⟩]) (hworkers : s'.workers = s.workers)
      (hactive : s'.activeDocs = reserve task s.activeDocs)
  | taken (workerId : Int) (task task' : TaskInfo) (hres : s.sched.reserving = [⟨workerId, task⟩])
      (hsame : task'.docId = task.docId ∧ docOf task' = docOf task)
      (hsched : s'.sched.reserving = []) (hworkers : s'.workers = ⟨workerId, task'⟩ :: s.workers)
      (hactive : s'.activeDocs = s.activeDocs)
  | givenBack (workerId : Int) (task : TaskInfo) (hres : s.sched.reserving = [⟨workerId, task⟩])
      (hsched : s'.sched.reserving = []) (hworkers : s'.workers = s.workers)
      (hactive : s'.activeDocs = unreserve task s.activeDocs)
  | finished (h : Held) (hidle : s.sched.reserving = []) (hheld : h ∈ s.workers)
      (hsched : s'.sched.reserving = []) (hworkers : s'.workers = s.workers.filter fun h' => h'.workerId != h.workerId)
      (hactive : s'.activeDocs = unreserve h.task s.activeDocs)

theorem mem_of_limitOne {before : TaskRow → TaskRow → Bool} {rows : Tasks}
    (h : limitOne before rows (some task) = true) : ∃ r ∈ rows, r.toTaskInfo = task := by
  simp only [limitOne, List.any_eq_true, Bool.and_eq_true, beq_iff_eq] at h
  obtain ⟨r, hr, he, -⟩ := h
  exact ⟨r, hr, he⟩

theorem not_active_of_select {active : List (String × String)} {t : Tasks}
    (h : selectOldestQueuedTaskExcluding active t (some task) = true) (hne : task.docId ≠ "") :
    docOf task ∉ active := by
  obtain ⟨r, hr, rfl⟩ := mem_of_limitOne h
  simp only [queuedTasksExcluding, List.mem_filter, Bool.and_eq_true, List.all_eq_true, Bool.or_eq_true,
    beq_iff_eq] at hr
  intro hmem
  rcases hr.2.2 _ hmem with he | he
  · exact hne he
  · simp [docOf] at he

variable {workerId : Int} {h : Held} {now : Int}

theorem heldBy_eq_some (hh : heldBy s workerId = some h) : h ∈ s.workers ∧ h.workerId = workerId :=
  ⟨List.mem_of_find?_eq_some hh, by simpa using List.find?_some hh⟩

theorem heldBy_eq_none (hh : heldBy s workerId = none) : ∀ h ∈ s.workers, h.workerId ≠ workerId := by
  simpa [heldBy] using hh

/-- Every branch of `Enqueue` leaves the reservation alone. -/
theorem reserving_decideEnqueue (req : SubmitRequest) (out : Option TaskInfo) :
    (decideEnqueue req out).reserving = [] := by
  cases out with
  | none => rfl
  | some r =>
    simp only [decideEnqueue]
    split <;> rfl

theorem handover_claimStep (h : claimStep s now = some s') : Handover s s' := by
  unfold claimStep at h
  split at h
  · rename_i hs
    split at h
    · split at h <;> cases h <;> exact .same (by rw [hs]; rfl) rfl rfl
    · cases h
  · cases h

theorem handover_refreshStep (h : refreshStep s now = some s') : Handover s s' := by
  unfold refreshStep at h
  split at h
  · rename_i hs
    split at h
    · cases h
    · split at h <;> cases h <;> exact .same (by rw [hs]; rfl) rfl rfl
  · cases h

theorem handover_readStep (h : readStep s = some s') : Handover s s' := by
  unfold readStep at h
  split at h
  · rename_i hs
    split at h <;> cases h <;> exact .same (by rw [hs]; rfl) rfl rfl
  · cases h

theorem handover_createStep {newId : String} (h : createStep env s newId now = some s') : Handover s s' := by
  unfold createStep at h
  split at h
  · rename_i hs
    split at h <;> cases h <;> exact .same (by rw [hs]; rfl) rfl rfl
  · cases h

theorem handover_markStep (h : markStep s now = some s') : Handover s s' := by
  unfold markStep at h
  split at h
  · rename_i workerId task hs
    have hres : s.sched.reserving = [⟨workerId, task⟩] := by rw [hs]; rfl
    split at h <;> cases h
    · exact .taken workerId task { task with status := .processing, workerId } hres ⟨rfl, rfl⟩ rfl rfl rfl
    · exact .givenBack workerId task hres rfl rfl rfl
  · cases h

theorem handover_finalizeStep {outcome : Outcome} (h : finalizeStep s workerId outcome now = some s') :
    Handover s s' := by
  unfold finalizeStep at h
  split at h
  · cases h
  · split at h <;> cases h <;> exact .same rfl rfl rfl

theorem handover_cancelStep {taskId : String} (h : cancelStep s taskId now = some s') : Handover s s' := by
  unfold cancelStep at h
  split at h
  · split at h <;> cases h <;> exact .same rfl rfl rfl
  · cases h
    exact .same rfl rfl rfl

theorem handover_of_step {a : Act} (h : step env s a = some s') : Handover s s' := by
  cases a with
  | enqueue req window nowSecs out =>
    simp only [step] at h
    split at h
    · rename_i hc
      cases h
      refine .same ?_ rfl rfl
      rw [hc.1, reserving_decideEnqueue]
      rfl
    · cases h
  | enqueueClaim now => exact handover_claimStep h
  | enqueueRefresh now => exact handover_refreshStep h
  | enqueueRead => exact handover_readStep h
  | enqueueCreate newId now => exact handover_createStep h
  | enqueueRelease | enqueueReturn =>
    simp only [step] at h
    split at h
    · rename_i hs
      cases h
      exact .same (by rw [hs]; rfl) rfl rfl
    · cases h
  | dequeue workerId out =>
    simp only [step] at h
    split at h
    · rename_i hc
      obtain ⟨hidle, hfree, hsel⟩ := hc
      cases out with
      | none =>
        cases h
        exact .same rfl rfl rfl
      | some task =>
        cases h
        exact .reserved workerId task (by rw [hidle]; rfl) (heldBy_eq_none hfree) (not_active_of_select hsel)
          rfl rfl rfl
    · cases h
  | dequeueMark now => exact handover_markStep h
  | dequeueFault =>
    simp only [step] at h
    split at h
    · rename_i workerId task hs
      cases h
      exact .givenBack workerId task (by rw [hs]; rfl) rfl rfl rfl
    · cases h
  | finalize workerId outcome now => exact handover_finalizeStep h
  | finished workerId outcome =>
    simp only [step] at h
    split at h
    · rename_i h' hs hheld
      cases h
      obtain ⟨hmem, hid⟩ := heldBy_eq_some hheld
      exact .finished h' (by rw [hs]; rfl) hmem (by rw [hs]; rfl) (by rw [hid]) rfl
    · cases h
  | cancelTask taskId now => exact handover_cancelStep h
  | release rel =>
    simp only [step] at h
    split at h <;> cases h
    exact .same rfl rfl rfl
  | transition tr =>
    cases h
    exact .same rfl rfl rfl

/-! ## The invariant -/

theorem heldDocs_cons (h : Held) (held : List Held) :
    heldDocs (h :: held) = if h.task.docId ≠ "" then docOf h.task :: heldDocs held else heldDocs held := by
  unfold heldDocs
  by_cases hd : h.task.docId = "" <;> simp [hd]

theorem heldDocs_replace {task task' : TaskInfo} {held : List Held}
    (hsame : task'.docId = task.docId ∧ docOf task' = docOf task) :
    heldDocs (⟨workerId, task'⟩ :: held) = heldDocs (⟨workerId, task⟩ :: held) := by
  rw [heldDocs_cons, heldDocs_cons, hsame.1, hsame.2]

theorem mem_unreserve_heldDocs {held : List Held} (hnd : (heldDocs (h :: held)).Nodup) :
    d ∈ unreserve h.task (heldDocs (h :: held)) ↔ d ∈ heldDocs held := by
  rw [mem_unreserve, heldDocs_cons]
  rw [heldDocs_cons] at hnd
  by_cases hd : h.task.docId = ""
  · simp [hd]
  · rw [if_pos hd] at hnd
    rw [if_pos hd, List.mem_cons]
    have hnot := (List.nodup_cons.mp hnd).1
    constructor
    · rintro ⟨he | hm, hne⟩
      · exact absurd ⟨hd, he⟩ hne
      · exact hm
    · intro hm
      refine ⟨.inr hm, fun hc => hnot ?_⟩
      rw [← hc.2]
      exact hm

theorem perm_cons_filter {held : List Held} (hnd : (held.map Held.workerId).Nodup) (hmem : h ∈ held) :
    held.Perm (h :: held.filter fun h' => h'.workerId != h.workerId) := by
  induction held with
  | nil => cases hmem
  | cons x xs ih =>
    rw [List.map_cons, List.nodup_cons] at hnd
    rcases List.mem_cons.mp hmem with rfl | hmem
    · have hall : xs.filter (fun h' => h'.workerId != h.workerId) = xs := by
        rw [List.filter_eq_self]
        intro y hy
        rw [bne_iff_ne]
        exact fun he => hnd.1 (List.mem_map.mpr ⟨y, hy, he⟩)
      rw [List.filter_cons_of_neg (by simp), hall]
    · have hne : (x.workerId != h.workerId) = true := by
        rw [bne_iff_ne]
        exact fun he => hnd.1 (List.mem_map.mpr ⟨h, hmem, he.symm⟩)
      rw [List.filter_cons_of_pos (by simpa using hne)]
      exact ((ih hnd.2 hmem).cons x).trans (List.Perm.swap h x _)

theorem heldDocs_perm {held held' : List Held} (h : held.Perm held') : (heldDocs held).Perm (heldDocs held') :=
  (h.filter _).map _

theorem Exclusive.putAway {held : List Held} (hi : Exclusive s) (hp : s.holders.Perm (h :: held))
    (hheld : s'.holders = held) (hactive : s'.activeDocs = unreserve h.task s.activeDocs) : Exclusive s' := by
  have hdocs : (heldDocs (h :: held)).Nodup := (heldDocs_perm hp).nodup_iff.mp hi.docs
  have hworkers : ((h :: held).map Held.workerId).Nodup := (hp.map Held.workerId).nodup_iff.mp hi.workers
  refine ⟨?_, ?_, fun d => ?_⟩
  · rw [hheld]
    exact (List.nodup_cons.mp hworkers).2
  · rw [hheld]
    rw [heldDocs_cons] at hdocs
    split at hdocs
    · exact (List.nodup_cons.mp hdocs).2
    · exact hdocs
  · rw [hheld, hactive, ← mem_unreserve_heldDocs hdocs, mem_unreserve, mem_unreserve, hi.active,
      (heldDocs_perm hp).mem_iff]

theorem Exclusive.step {a : Act} (hi : Exclusive s) (h : Scheduler.step env s a = some s') : Exclusive s' := by
  cases handover_of_step h with
  | same hsched hworkers hactive =>
    have hh : s'.holders = s.holders := by rw [State.holders, State.holders, hsched, hworkers]
    exact ⟨hh ▸ hi.workers, hh ▸ hi.docs, fun d => by rw [hactive, hh]; exact hi.active d⟩
  | reserved workerId task hidle hfree hdoc hsched hworkers hactive =>
    have hs : s.holders = s.workers := by rw [State.holders, hidle]; rfl
    have hs' : s'.holders = ⟨workerId, task⟩ :: s.workers := by rw [State.holders, hsched, hworkers]; rfl
    refine ⟨?_, ?_, fun d => ?_⟩
    · rw [hs', List.map_cons, List.nodup_cons]
      refine ⟨fun hmem => ?_, hs ▸ hi.workers⟩
      obtain ⟨h, hh, he⟩ := List.mem_map.mp hmem
      exact hfree h hh he
    · have hnd := hi.docs
      rw [hs] at hnd
      rw [hs', heldDocs_cons]
      split
      · rename_i hd
        refine List.nodup_cons.mpr ⟨fun hmem => hdoc hd ?_, hnd⟩
        rw [hi.active, hs]
        exact hmem
      · exact hnd
    · rw [hactive, mem_reserve, hs', heldDocs_cons, hi.active, hs]
      split
      · rename_i hd
        rw [List.mem_cons]
        tauto
      · tauto
  | taken workerId task task' hres hsame hsched hworkers hactive =>
    have hs : s.holders = ⟨workerId, task⟩ :: s.workers := by rw [State.holders, hres]; rfl
    have hs' : s'.holders = ⟨workerId, task'⟩ :: s.workers := by rw [State.holders, hsched, hworkers]; rfl
    have hdocs : heldDocs s'.holders = heldDocs s.holders := by rw [hs, hs', heldDocs_replace hsame]
    refine ⟨?_, hdocs ▸ hi.docs, fun d => by rw [hactive, hdocs]; exact hi.active d⟩
    have hw := hi.workers
    rw [hs] at hw
    rw [hs']
    exact hw
  | givenBack workerId task hres hsched hworkers hactive =>
    have hs : s.holders = ⟨workerId, task⟩ :: s.workers := by rw [State.holders, hres]; rfl
    refine hi.putAway (List.Perm.of_eq hs) ?_ hactive
    rw [State.holders, hsched, hworkers]
    rfl
  | finished h hidle hheld hsched hworkers hactive =>
    have hs : s.holders = s.workers := by rw [State.holders, hidle]; rfl
    have hw := hi.workers
    rw [hs] at hw
    have hp := perm_cons_filter hw hheld
    rw [← hs] at hp
    refine hi.putAway hp ?_ hactive
    rw [State.holders, hsched, hworkers, hs]
    rfl

theorem Exclusive.init (tasks : Tasks) : Exclusive (State.init tasks) :=
  ⟨List.nodup_nil, List.nodup_nil, fun d => by simp [State.init, State.holders, Sched.reserving, heldDocs]⟩

theorem Exclusive.run {tasks : Tasks} {acts : List Act} (h : Lib.run (Scheduler.step env) (State.init tasks) acts = some s) :
    Exclusive s :=
  run_inv (fun hi _ hstep => hi.step hstep) (Exclusive.init tasks) (along_true _ acts) h

theorem Exclusive.workerDocs (hi : Exclusive s) : (heldDocs s.workers).Nodup ∧
    ∀ d, d ∈ s.activeDocs ↔ d ∈ heldDocs s.workers ∨
      ∃ w task, s.sched = .dequeuing w task ∧ task.docId ≠ "" ∧ docOf task = d ∧ d ∉ heldDocs s.workers := by
  have hdocs := hi.docs
  have hactive := hi.active
  unfold State.holders at hdocs hactive
  by_cases hres : ∃ w task, s.sched = .dequeuing w task
  · obtain ⟨w, task, hs⟩ := hres
    simp only [hs, Sched.reserving, List.singleton_append, heldDocs_cons] at hdocs hactive
    by_cases hd : task.docId = ""
    · simp only [hd, ne_eq, not_true_eq_false, if_false] at hdocs hactive
      refine ⟨hdocs, fun d => (hactive d).trans ⟨.inl, ?_⟩⟩
      rintro (h | ⟨w', task', hs', hne, -⟩)
      · exact h
      · cases hs.symm.trans hs'
        exact absurd hd hne
    · simp only [ne_eq, hd, not_false_eq_true, if_true] at hdocs hactive
      obtain ⟨hnot, hnd⟩ := List.nodup_cons.mp hdocs
      refine ⟨hnd, fun d => (hactive d).trans (List.mem_cons.trans ⟨?_, ?_⟩)⟩
      · rintro (rfl | h)
        · exact .inr ⟨w, task, hs, hd, rfl, hnot⟩
        · exact .inl h
      · rintro (h | ⟨w', task', hs', -, he, -⟩)
        · exact .inr h
        · cases hs.symm.trans hs'
          exact .inl he.symm
  · have hnone : s.sched.reserving = [] := by
      cases hs : s.sched with
      | dequeuing w task => exact absurd ⟨w, task, hs⟩ hres
      | idle | looked | creating | refreshed | accepted => rfl
    rw [hnone, List.nil_append] at hdocs hactive
    refine ⟨hdocs, fun d => (hactive d).trans ⟨.inl, ?_⟩⟩
    rintro (h | ⟨w, task, hs, -⟩)
    · exact h
    · exact absurd ⟨w, task, hs⟩ hres

/-- **One document, one worker.** In every state of every run no document is held twice, the set of active documents
is the set of those held (while a `Dequeue` is under way, with the one it has reserved, which no worker holds), and a
queued task whose document nobody holds is not kept from dispatch. -/
theorem one_worker_per_document (env : Env) (tasks : Tasks) (acts : List Act) (s : State)
    (h : run (step env) (State.init tasks) acts = some s) :
    (heldDocs s.workers).Nodup ∧
    (∀ d, d ∈ s.activeDocs ↔ d ∈ heldDocs s.workers ∨
      ∃ w task, s.sched = .dequeuing w task ∧ task.docId ≠ "" ∧ docOf task = d ∧ d ∉ heldDocs s.workers) ∧
    (s.sched = .idle → ∀ r ∈ s.tasks, r.status = .queued → docOf r.toTaskInfo ∉ heldDocs s.workers →
      r ∈ queuedTasksExcluding s.activeDocs s.tasks) := by
  have hi : Exclusive s := Exclusive.run h
  obtain ⟨hnd, hactive⟩ := hi.workerDocs
  refine ⟨hnd, hactive, fun hidle r hr hq hfree => ?_⟩
  simp only [queuedTasksExcluding, List.mem_filter, Bool.and_eq_true, List.all_eq_true, Bool.or_eq_true,
    beq_iff_eq]
  refine ⟨hr, hq, fun d hd => ?_⟩
  have hheld : d ∈ heldDocs s.workers := by
    rcases (hactive d).mp hd with hheld | ⟨w, task, hs, -⟩
    · exact hheld
    · rw [hidle] at hs
      cases hs
  by_cases hdoc : r.docId = ""
  · exact .inl hdoc
  · refine .inr ?_
    rw [Bool.not_eq_true', ← Bool.not_eq_true, Bool.and_eq_true, beq_iff_eq, beq_iff_eq]
    intro he
    exact hfree (by rw [show docOf r.toTaskInfo = d from Prod.ext he.1 he.2]; exact hheld)

/-- Two submissions for one document and one for another; two workers, one of whose handlers throws. -/
def twoWorkers : List Act :=
  [.enqueue (upload "d1" "h1" "") 0 0 none, .enqueueCreate "a" 1, .enqueueReturn,
   .enqueue (upload "d1" "h2" "") 0 0 none, .enqueueCreate "b" 2, .enqueueReturn,
   .enqueue (upload "d2" "h3" "") 0 0 none, .enqueueCreate "c" 3, .enqueueReturn,
   .dequeue 1 (some (createdTask flatEnv "a" 1 (upload "d1" "h1" ""))), .dequeueMark 4,
   .dequeue 2 (some (createdTask flatEnv "c" 3 (upload "d2" "h3" ""))), .dequeueMark 5,
   .finished 2 .threw]

theorem one_worker_per_document_twoWorkers : ∃ s, run (step flatEnv) (State.init []) twoWorkers = some s ∧
    heldDocs s.workers = [("n", "d1")] ∧ ∀ d, d ∈ s.activeDocs ↔ d = ("n", "d1") := by
  have h : (run (step flatEnv) (State.init []) twoWorkers).any
      (fun s => heldDocs s.workers == [("n", "d1")] && s.sched == .idle) = true := by
    decide +kernel
  obtain ⟨s, hs, h⟩ := (Option.any_eq_true _ _).mp h
  simp only [Bool.and_eq_true, beq_iff_eq] at h
  obtain ⟨hheld, hidle⟩ := h
  refine ⟨s, hs, hheld, fun d => ?_⟩
  rw [(one_worker_per_document flatEnv [] twoWorkers s hs).2.1 d, hheld, hidle]
  simp

end Cortrix.Async.Scheduler
