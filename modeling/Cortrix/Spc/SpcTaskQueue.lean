import Mathlib.Data.List.Count
import Mathlib.Data.List.Perm.Basic
import Cortrix.Lib.Run

/-!
# The queue of the ingest tasks

`SPCTaskQueue` with the tasks its callers share with it. A task is known by its pointer. Every method
is one critical section.

* `Inv` : the books of the queue; `inv_step`, `inv_run`;
* `queue_loses_nothing` : tasks are handed out once, in order, and `HasActiveTask` misses none.
-/

namespace Cortrix.Spc
open Lib

inductive SPCPriority
  | kP0
  | kP1
  | kP2

def SPCPriority.toInt : SPCPriority → Int
  | .kP0 => 0
  | .kP1 => 1
  | .kP2 => 2

inductive SPCStage
  | kQueued
  | kParsing
  | kChunking
  | kEmbedding
  | kAssembling
  | kDone
  | kError
  | kCancelled

/-- What the queue reads of a task. -/
structure SPCTask where
  docId : String
  namespaceName : String
  sourceType : String
  sourcePath : String
  priority : SPCPriority := .kP1
  createdAtUs : Int := 0
  stage : SPCStage := .kQueued
  cancelled : Bool := false

def SPCTask.cancel (t : SPCTask) : SPCTask := { t with cancelled := true, stage := .kCancelled }

/-- The task objects, by pointer. -/
abbrev SPCTasks := Nat → SPCTask

/-- The comparison of the sort: by priority, then by creation time. -/
def SPCTask.before (a b : SPCTask) : Bool :=
  if a.priority.toInt ≠ b.priority.toInt then a.priority.toInt < b.priority.toInt else a.createdAtUs < b.createdAtUs

/-- `order` is a result of `std::sort`, which may leave ties in any order. -/
def IsSortOf (tasks : SPCTasks) (ps order : List Nat) : Prop :=
  order.Perm ps ∧ order.Pairwise fun p p' => (tasks p').before (tasks p) = false

instance (tasks : SPCTasks) (ps order : List Nat) : Decidable (IsSortOf tasks ps order) :=
  inferInstanceAs (Decidable (_ ∧ _))

structure SPCTaskQueue where
  maxSize : Int
  queue : List Nat := []
  running : String → Nat := fun _ => 0
  stopped : Bool := false

namespace SPCTaskQueue
variable (q : SPCTaskQueue) (tasks : SPCTasks)

def accepts : Bool := !q.stopped && decide ((q.queue.length : Int) < q.maxSize)

def push (order : List Nat) : SPCTaskQueue := { q with queue := order }

/-- The front of the queue behind the cancelled tasks, and what stays. -/
def popLoop : List Nat → Option Nat × List Nat
  | [] => (none, [])
  | p :: ps => if (tasks p).cancelled then popLoop ps else (some p, ps)

def beginRunning (docId : String) : SPCTaskQueue :=
  { q with running := Function.update q.running docId (q.running docId + 1) }

/-- A document whose last task ends leaves the map. -/
def finishTask (docId : String) : SPCTaskQueue :=
  { q with running := Function.update q.running docId (q.running docId - 1) }

/-- `Pop` waits: there is no task, and the queue is not stopped. -/
def waits : Bool := !q.stopped && q.queue.isEmpty

/-- `Pop` that does not wait. The task it hands out counts as running from here on. -/
def pop : Option Nat × SPCTaskQueue :=
  match popLoop tasks q.queue with
  | (some p, ps) => (some p, { q with queue := ps }.beginRunning (tasks p).docId)
  | (none, ps) => (none, { q with queue := ps })

def isRunning (docId : String) : Bool := 0 < q.running docId

def cancelOne (namespaceName sourceType sourcePath : String) (acc : SPCTasks × Nat) (p : Nat) : SPCTasks × Nat :=
  if (acc.1 p).namespaceName = namespaceName ∧ (acc.1 p).sourceType = sourceType ∧
      (acc.1 p).sourcePath = sourcePath ∧ (acc.1 p).cancelled = false then
    (Function.update acc.1 p (acc.1 p).cancel, acc.2 + 1)
  else acc

/-- The tasks with their cancelled flags set, and the number cancelled. -/
def cancelQueuedVersions (namespaceName sourceType sourcePath : String) : SPCTasks × Nat :=
  q.queue.foldl (cancelOne namespaceName sourceType sourcePath) (tasks, 0)

def hasQueuedTask (docId : String) : Bool :=
  q.queue.any fun p => decide ((tasks p).docId = docId) && !(tasks p).cancelled

def stop : SPCTaskQueue := { q with stopped := true }

def drainRemaining : List Nat × SPCTaskQueue :=
  (q.queue.filter fun p => !(tasks p).cancelled, { q with queue := [] })

end SPCTaskQueue

/-! ## The loops -/

section Loops
variable (tasks : SPCTasks)

/-- What `Pop` passes over is cancelled. -/
theorem popLoop_spec (ps : List Nat) : ∃ skipped, (∀ x ∈ skipped, (tasks x).cancelled = true) ∧
    ((SPCTaskQueue.popLoop tasks ps = (none, []) ∧ ps = skipped) ∨
      ∃ p rest, SPCTaskQueue.popLoop tasks ps = (some p, rest) ∧ ps = skipped ++ p :: rest ∧
        (tasks p).cancelled = false) := by
  induction ps with
  | nil => exact ⟨[], by simp, .inl ⟨rfl, rfl⟩⟩
  | cons x ps ih =>
    by_cases hx : (tasks x).cancelled = true
    · obtain ⟨skipped, hskip, h⟩ := ih
      have hloop : SPCTaskQueue.popLoop tasks (x :: ps) = SPCTaskQueue.popLoop tasks ps := by
        rw [SPCTaskQueue.popLoop, if_pos hx]
      rw [hloop]
      refine ⟨x :: skipped, List.forall_mem_cons.mpr ⟨hx, hskip⟩, ?_⟩
      rcases h with ⟨hnone, hps⟩ | ⟨p, rest, hsome, hps, hp⟩
      · exact .inl ⟨hnone, by rw [hps]⟩
      · exact .inr ⟨p, rest, hsome, by rw [hps, List.cons_append], hp⟩
    · rw [Bool.not_eq_true] at hx
      refine ⟨[], by simp, .inr ⟨x, ps, ?_, rfl, hx⟩⟩
      rw [SPCTaskQueue.popLoop, if_neg (by simp [hx])]

/-- A task before and after a cancel: what the queue sorts and looks up by stays, and a cancelled task stays so. -/
structure SPCTask.Kept (a b : SPCTask) : Prop where
  docId : b.docId = a.docId
  priority : b.priority = a.priority
  createdAtUs : b.createdAtUs = a.createdAtUs
  cancelled : b.cancelled = false → a.cancelled = false

theorem SPCTask.Kept.refl (a : SPCTask) : a.Kept a := ⟨rfl, rfl, rfl, id⟩

theorem SPCTask.Kept.trans {a b c : SPCTask} (h : a.Kept b) (h' : b.Kept c) : a.Kept c :=
  ⟨h'.docId.trans h.docId, h'.priority.trans h.priority, h'.createdAtUs.trans h.createdAtUs,
    fun hc => h.cancelled (h'.cancelled hc)⟩

theorem SPCTask.Kept.before {a a' b b' : SPCTask} (h : a.Kept b) (h' : a'.Kept b') : b.before b' = a.before a' := by
  unfold SPCTask.before
  rw [h.priority, h'.priority, h.createdAtUs, h'.createdAtUs]

theorem cancelQueuedVersions_spec (q : SPCTaskQueue) (ns st sp : String) (p : Nat) :
    (tasks p).Kept ((q.cancelQueuedVersions tasks ns st sp).1 p) := by
  have hfold : ∀ (ps : List Nat) (acc : SPCTasks × Nat),
      (acc.1 p).Kept ((ps.foldl (SPCTaskQueue.cancelOne ns st sp) acc).1 p) := by
    intro ps
    induction ps with
    | nil => exact fun acc => .refl _
    | cons x ps ih =>
      intro acc
      refine SPCTask.Kept.trans ?_ (ih _)
      unfold SPCTaskQueue.cancelOne
      by_cases h : (acc.1 x).namespaceName = ns ∧ (acc.1 x).sourceType = st ∧ (acc.1 x).sourcePath = sp ∧
          (acc.1 x).cancelled = false
      · rw [if_pos h]
        show (acc.1 p).Kept (Function.update acc.1 x (acc.1 x).cancel p)
        by_cases hx : p = x
        · rw [hx, Function.update_self]
          exact ⟨rfl, rfl, rfl, fun hc => by simp [SPCTask.cancel] at hc⟩
        · rw [Function.update_of_ne hx]
          exact .refl _
      · rw [if_neg h]
        exact .refl _
  exact hfold q.queue (tasks, 0)

theorem cancelQueuedVersions_of_ne (q : SPCTaskQueue) {ns st sp : String} {p : Nat} (h : (tasks p).sourceType ≠ st) :
    (q.cancelQueuedVersions tasks ns st sp).1 p = tasks p := by
  have hfold : ∀ (ps : List Nat) (acc : SPCTasks × Nat), acc.1 p = tasks p →
      (ps.foldl (SPCTaskQueue.cancelOne ns st sp) acc).1 p = tasks p := by
    intro ps
    induction ps with
    | nil => exact fun acc hacc => hacc
    | cons x ps ih =>
      intro acc hacc
      refine ih _ ?_
      unfold SPCTaskQueue.cancelOne
      split
      · rename_i hx
        have hne : p ≠ x := fun he => h (by rw [← hacc, he, hx.2.1])
        show Function.update acc.1 x (acc.1 x).cancel p = tasks p
        rw [Function.update_of_ne hne, hacc]
      · exact hacc
  exact hfold q.queue (tasks, 0) rfl

end Loops

/-! ## The queue under any threads -/

namespace TaskQueue

/-- The queue, the tasks, the work in progress, and the tasks `Push` took and `Pop` or `DrainRemaining` handed out. -/
structure State where
  queue : SPCTaskQueue
  tasks : SPCTasks
  /-- The tasks between `Pop` or `BeginRunning` and the `FinishTask` of the guard. -/
  working : List Nat := []
  accepted : List Nat := []
  handedOut : List Nat := []

inductive Act
  | push (p : Nat) (order : List Nat)
  | pop
  | beginRunning (p : Nat)
  | finishTask (p : Nat)
  | cancelQueuedVersions (namespaceName sourceType sourcePath : String)
  | stop
  | drainRemaining

/-- One critical section. Every caller of `Submit` makes the task object for that call, and the work that
`BeginRunning` counts is not in the queue. -/
def step (s : State) : Act → Option State
  | .push p order =>
    if p ∈ s.accepted ∨ p ∈ s.working then none
    else if s.queue.accepts then
      if IsSortOf s.tasks (s.queue.queue ++ [p]) order then
        some { s with queue := s.queue.push order, accepted := p :: s.accepted }
      else none
    else some s
  | .pop =>
    if s.queue.waits then none
    else
      match s.queue.pop s.tasks with
      | (some p, q) => some { s with queue := q, working := p :: s.working, handedOut := p :: s.handedOut }
      | (none, q) => some { s with queue := q }
  | .beginRunning p =>
    if p ∈ s.accepted then none
    else some { s with queue := s.queue.beginRunning (s.tasks p).docId, working := p :: s.working }
  | .finishTask p =>
    if p ∈ s.working then
      some { s with queue := s.queue.finishTask (s.tasks p).docId, working := s.working.erase p }
    else none
  | .cancelQueuedVersions ns st sp => some { s with tasks := (s.queue.cancelQueuedVersions s.tasks ns st sp).1 }
  | .stop => some { s with queue := s.queue.stop }
  | .drainRemaining =>
    some { s with
      queue := (s.queue.drainRemaining s.tasks).2
      handedOut := (s.queue.drainRemaining s.tasks).1 ++ s.handedOut }

def start (maxSize : Int) (tasks : SPCTasks) : State := { queue := { maxSize := maxSize }, tasks := tasks }

/-- `SPCManager::HasActiveTask`: the queue is read in one state, the running tasks in a later one. -/
def hasActiveTask (docId : String) (s s' : State) : Bool :=
  s.queue.hasQueuedTask s.tasks docId || s'.queue.isRunning docId

/-- A task of the document that is not cancelled is queued or in progress. -/
def State.Active (s : State) (docId : String) (p : Nat) : Prop :=
  (s.tasks p).docId = docId ∧ (s.tasks p).cancelled = false ∧ (p ∈ s.queue.queue ∨ p ∈ s.working)

instance (s : State) (docId : String) (p : Nat) : Decidable (s.Active docId p) :=
  inferInstanceAs (Decidable (_ ∧ _ ∧ _))

/-! ## The books of the queue -/

structure Inv (s : State) : Prop where
  sorted : s.queue.queue.Pairwise fun p p' => (s.tasks p').before (s.tasks p) = false
  once : s.accepted.Nodup
  /-- A task is handed out or queued no more often than it was taken. -/
  le : ∀ p, s.handedOut.count p + s.queue.queue.count p ≤ s.accepted.count p
  /-- Only cancelled tasks go without being handed out. -/
  eq : ∀ p, (s.tasks p).cancelled = false → s.handedOut.count p + s.queue.queue.count p = s.accepted.count p
  /-- The map counts the work in progress. -/
  running : ∀ d, s.queue.running d = s.working.countP fun p => decide ((s.tasks p).docId = d)
  /-- What is in progress has left the queue. -/
  left : ∀ p ∈ s.working, p ∉ s.queue.queue

variable {s s' : State} {a : Act} {p : Nat} {d : String}

theorem Inv.start (maxSize : Int) (tasks : SPCTasks) : Inv (start maxSize tasks) :=
  ⟨.nil, List.nodup_nil, fun _ => Nat.le_refl _, fun _ _ => rfl, fun _ => rfl, fun _ h => by cases h⟩

theorem Inv.push {order : List Nat} (h : Inv s) (hnew : ¬ (p ∈ s.accepted ∨ p ∈ s.working))
    (hsort : IsSortOf s.tasks (s.queue.queue ++ [p]) order) :
    Inv { s with queue := s.queue.push order, accepted := p :: s.accepted } := by
  rw [not_or] at hnew
  have hcount : ∀ x, order.count x = s.queue.queue.count x + [p].count x := by
    intro x
    rw [hsort.1.count_eq, List.count_append]
  have hcons : ∀ x, (p :: s.accepted).count x = s.accepted.count x + [p].count x := by
    intro x
    rw [← List.singleton_append, List.count_append, Nat.add_comm]
  refine ⟨hsort.2, List.nodup_cons.mpr ⟨hnew.1, h.once⟩, fun x => ?_, fun x hx => ?_, h.running, fun x hx hin => ?_⟩
  · show s.handedOut.count x + order.count x ≤ (p :: s.accepted).count x
    have := h.le x
    rw [hcount, hcons]
    omega
  · show s.handedOut.count x + order.count x = (p :: s.accepted).count x
    have := h.eq x hx
    rw [hcount, hcons]
    omega
  · rcases List.mem_append.mp (hsort.1.mem_iff.mp hin) with hq | hp
    · exact h.left x hx hq
    · exact hnew.2 (List.mem_singleton.mp hp ▸ hx)

theorem running_begin (h : Inv s) (p : Nat) (d : String) :
    Function.update s.queue.running (s.tasks p).docId (s.queue.running (s.tasks p).docId + 1) d =
      (p :: s.working).countP fun x => decide ((s.tasks x).docId = d) := by
  rw [List.countP_cons]
  by_cases hd : d = (s.tasks p).docId
  · rw [hd, Function.update_self, h.running, if_pos (by simp)]
  · rw [Function.update_of_ne hd, h.running, if_neg (by simpa using Ne.symm hd)]
    rfl

theorem running_finish (h : Inv s) (hp : p ∈ s.working) (d : String) :
    Function.update s.queue.running (s.tasks p).docId (s.queue.running (s.tasks p).docId - 1) d =
      (s.working.erase p).countP fun x => decide ((s.tasks x).docId = d) := by
  have hcount := (List.perm_cons_erase hp).countP_eq fun x => decide ((s.tasks x).docId = d)
  rw [List.countP_cons] at hcount
  by_cases hd : d = (s.tasks p).docId
  · rw [hd, Function.update_self, h.running]
    rw [hd, if_pos (by simp)] at hcount
    omega
  · rw [Function.update_of_ne hd, h.running, hcount, if_neg (by simpa using Ne.symm hd)]
    rfl

/-- `Pop` hands out the first task that is not cancelled, or empties a queue of cancelled ones. -/
theorem pop_cases (q : SPCTaskQueue) (tasks : SPCTasks) :
    ∃ skipped, (∀ x ∈ skipped, (tasks x).cancelled = true) ∧
      ((q.pop tasks = (none, { q with queue := [] }) ∧ q.queue = skipped) ∨
        ∃ p rest, q.pop tasks = (some p, { q with queue := rest }.beginRunning (tasks p).docId) ∧
          q.queue = skipped ++ p :: rest ∧ (tasks p).cancelled = false) := by
  obtain ⟨skipped, hskip, h⟩ := popLoop_spec tasks q.queue
  refine ⟨skipped, hskip, ?_⟩
  unfold SPCTaskQueue.pop
  rcases h with ⟨hnone, hq⟩ | ⟨p, rest, hsome, hq, hp⟩
  · exact .inl ⟨by rw [hnone], hq⟩
  · exact .inr ⟨p, rest, by rw [hsome], hq, hp⟩

theorem step_push {order : List Nat} (hs : step s (.push p order) = some s') :
    s' = s ∨ ¬ (p ∈ s.accepted ∨ p ∈ s.working) ∧ IsSortOf s.tasks (s.queue.queue ++ [p]) order ∧
      s' = { s with queue := s.queue.push order, accepted := p :: s.accepted } := by
  simp only [step] at hs
  split at hs
  · cases hs
  · rename_i hnew
    split at hs
    · split at hs
      · rename_i hsort
        exact .inr ⟨hnew, hsort, (Option.some.inj hs).symm⟩
      · cases hs
    · exact .inl (Option.some.inj hs).symm

theorem step_pop (hs : step s .pop = some s') :
    ∃ skipped, (∀ x ∈ skipped, (s.tasks x).cancelled = true) ∧
      (s.queue.queue = skipped ∧ s' = { s with queue := { s.queue with queue := [] } } ∨
        ∃ p rest, s.queue.queue = skipped ++ p :: rest ∧ (s.tasks p).cancelled = false ∧
          s' = { s with
            queue := { s.queue with queue := rest }.beginRunning (s.tasks p).docId
            working := p :: s.working
            handedOut := p :: s.handedOut }) := by
  simp only [step] at hs
  split at hs
  · cases hs
  · obtain ⟨skipped, hskip, ⟨hpop, hq⟩ | ⟨p, rest, hpop, hq, hlive⟩⟩ := pop_cases s.queue s.tasks
    · rw [hpop] at hs
      exact ⟨skipped, hskip, .inl ⟨hq, (Option.some.inj hs).symm⟩⟩
    · rw [hpop] at hs
      exact ⟨skipped, hskip, .inr ⟨p, rest, hq, hlive, (Option.some.inj hs).symm⟩⟩

theorem step_beginRunning (hs : step s (.beginRunning p) = some s') :
    p ∉ s.accepted ∧
      s' = { s with queue := s.queue.beginRunning (s.tasks p).docId, working := p :: s.working } := by
  simp only [step] at hs
  split at hs
  · cases hs
  · rename_i hnew
    exact ⟨hnew, (Option.some.inj hs).symm⟩

theorem step_finishTask (hs : step s (.finishTask p) = some s') :
    p ∈ s.working ∧
      s' = { s with queue := s.queue.finishTask (s.tasks p).docId, working := s.working.erase p } := by
  simp only [step] at hs
  split at hs
  · rename_i hp
    exact ⟨hp, (Option.some.inj hs).symm⟩
  · cases hs

theorem Inv.skip {skipped rest : List Nat} (h : Inv s) (hq : s.queue.queue = skipped ++ rest)
    (hskip : ∀ x ∈ skipped, (s.tasks x).cancelled = true) : Inv { s with queue := { s.queue with queue := rest } } := by
  have hcount : ∀ x, s.queue.queue.count x = skipped.count x + rest.count x := by
    intro x
    rw [hq, List.count_append]
  refine ⟨?_, h.once, fun x => ?_, fun x hx => ?_, h.running, fun x hx hin => h.left x hx ?_⟩
  · exact (List.pairwise_append.mp (hq ▸ h.sorted)).2.1
  · show s.handedOut.count x + rest.count x ≤ s.accepted.count x
    have := h.le x
    have := hcount x
    omega
  · show s.handedOut.count x + rest.count x = s.accepted.count x
    have hnot : skipped.count x = 0 := List.count_eq_zero.mpr fun hin => by simp [hskip x hin] at hx
    have := h.eq x hx
    have := hcount x
    omega
  · rw [hq]
    exact List.mem_append_right _ hin

theorem Inv.handOut {rest : List Nat} (h : Inv s) (hq : s.queue.queue = p :: rest) :
    Inv { s with
      queue := { s.queue with queue := rest }.beginRunning (s.tasks p).docId
      working := p :: s.working
      handedOut := p :: s.handedOut } := by
  have hcount : ∀ x, (p :: s.handedOut).count x + rest.count x = s.handedOut.count x + s.queue.queue.count x := by
    intro x
    rw [hq, List.count_cons, List.count_cons]
    omega
  have hsorted := h.sorted
  rw [hq] at hsorted
  refine ⟨(List.pairwise_cons.mp hsorted).2, h.once, fun x => ?_, fun x hx => ?_, running_begin h p, ?_⟩
  · show (p :: s.handedOut).count x + rest.count x ≤ s.accepted.count x
    rw [hcount]
    exact h.le x
  · show (p :: s.handedOut).count x + rest.count x = s.accepted.count x
    rw [hcount]
    exact h.eq x hx
  · rw [List.forall_mem_cons]
    refine ⟨fun hin => ?_, fun x hx hin => h.left x hx ?_⟩
    · -- a second entry of the task would have been taken twice
      have hpos : 0 < rest.count p := List.count_pos_iff.mpr hin
      have htwice : s.queue.queue.count p = rest.count p + 1 := by rw [hq, List.count_cons_self]
      have := h.le p
      have := List.nodup_iff_count.mp h.once p
      omega
    · rw [hq]
      exact List.mem_cons_of_mem _ hin

theorem Inv.drain (h : Inv s) :
    Inv { s with
      queue := (s.queue.drainRemaining s.tasks).2
      handedOut := (s.queue.drainRemaining s.tasks).1 ++ s.handedOut } := by
  unfold SPCTaskQueue.drainRemaining
  refine ⟨.nil, h.once, fun x => ?_, fun x hx => ?_, h.running, fun x _ hin => by cases hin⟩
  · show ((s.queue.queue.filter fun p => !(s.tasks p).cancelled) ++ s.handedOut).count x + 0 ≤ s.accepted.count x
    have := h.le x
    have := List.Sublist.count_le x (List.filter_sublist (p := fun p => !(s.tasks p).cancelled) (l := s.queue.queue))
    rw [List.count_append]
    omega
  · show ((s.queue.queue.filter fun p => !(s.tasks p).cancelled) ++ s.handedOut).count x + 0 = s.accepted.count x
    have := h.eq x hx
    have := List.count_filter (p := fun p => !(s.tasks p).cancelled) (l := s.queue.queue) (a := x) (by simpa using hx)
    rw [List.count_append]
    omega

theorem Inv.cancel (h : Inv s) (ns st sp : String) :
    Inv { s with tasks := (s.queue.cancelQueuedVersions s.tasks ns st sp).1 } := by
  have hkept := cancelQueuedVersions_spec s.tasks s.queue ns st sp
  refine ⟨h.sorted.imp fun {x y} hxy => ?_, h.once, h.le, fun x hx => h.eq x ((hkept x).cancelled hx), fun d => ?_, h.left⟩
  · rw [(hkept y).before (hkept x)]
    exact hxy
  · rw [h.running]
    congr 1
    funext x
    rw [(hkept x).docId]

theorem Inv.step (h : Inv s) (hs : step s a = some s') : Inv s' := by
  rcases a with ⟨p, order⟩ | _ | p | p | ⟨ns, st, sp⟩ | _ | _
  · obtain rfl | ⟨hnew, hsort, rfl⟩ := step_push hs
    · exact h
    · exact h.push hnew hsort
  · obtain ⟨skipped, hskip, ⟨hq, rfl⟩ | ⟨p, rest, hq, -, rfl⟩⟩ := step_pop hs
    · rw [← List.append_nil skipped] at hq
      exact h.skip hq hskip
    · exact (h.skip hq hskip).handOut rfl
  · obtain ⟨hnew, rfl⟩ := step_beginRunning hs
    refine ⟨h.sorted, h.once, h.le, h.eq, running_begin h p, ?_⟩
    rw [List.forall_mem_cons]
    refine ⟨fun hin => hnew (List.count_pos_iff.mp ?_), h.left⟩
    have : 0 < s.queue.queue.count p := List.count_pos_iff.mpr hin
    have := h.le p
    omega
  · obtain ⟨hp, rfl⟩ := step_finishTask hs
    exact ⟨h.sorted, h.once, h.le, h.eq, running_finish h hp, fun x hx => h.left x (List.mem_of_mem_erase hx)⟩
  · exact Option.some.inj hs ▸ h.cancel ns st sp
  · exact Option.some.inj hs ▸ ⟨h.sorted, h.once, h.le, h.eq, h.running, h.left⟩
  · exact Option.some.inj hs ▸ h.drain

theorem inv_run {maxSize : Int} {tasks : SPCTasks} {as : List Act} (h : run step (start maxSize tasks) as = some s) :
    Inv s :=
  run_inv (fun hi _ hs => hi.step hs) (Inv.start maxSize tasks) (along_true _ as) h

theorem Inv.accepted_of_queued (h : Inv s) (hp : p ∈ s.queue.queue) : p ∈ s.accepted := by
  have hpos : 0 < s.queue.queue.count p := List.count_pos_iff.mpr hp
  have := h.le p
  exact List.count_pos_iff.mp (by omega)

/-! ## What is handed out -/

theorem pop_first {q : SPCTaskQueue} (h : Inv s) (hpop : s.queue.pop s.tasks = (some p, q)) :
    p ∈ s.queue.queue ∧ (s.tasks p).cancelled = false ∧
      ∀ x ∈ s.queue.queue, (s.tasks x).cancelled = false → (s.tasks x).before (s.tasks p) = false := by
  obtain ⟨skipped, hskip, ⟨hnone, -⟩ | ⟨p', rest, hsome, hq, hlive⟩⟩ := pop_cases s.queue s.tasks
  · rw [hnone] at hpop
    simp at hpop
  · rw [hsome, Prod.mk.injEq, Option.some.injEq] at hpop
    obtain ⟨rfl, -⟩ := hpop
    have hsorted := h.sorted
    rw [hq] at hsorted
    refine ⟨by simp [hq], hlive, fun x hx hx' => ?_⟩
    rw [hq] at hx
    rcases List.mem_append.mp hx with hin | hin
    · simp [hskip x hin] at hx'
    · rcases List.mem_cons.mp hin with rfl | hin
      · simp [SPCTask.before]
      · exact List.rel_of_pairwise_cons (List.pairwise_append.mp hsorted).2.1 hin

theorem pop_finds (hp : p ∈ s.queue.queue) (hlive : (s.tasks p).cancelled = false) :
    ∃ p' q, s.queue.pop s.tasks = (some p', q) := by
  obtain ⟨skipped, hskip, ⟨-, hq⟩ | ⟨p', rest, hsome, -, -⟩⟩ := pop_cases s.queue s.tasks
  · rw [hq] at hp
    simp [hskip p hp] at hlive
  · exact ⟨p', _, hsome⟩

/-! ## The activity of a document -/

theorem queued_step (hs : step s a = some s') (hin : p ∈ s'.queue.queue) :
    p ∈ s.queue.queue ∨ p ∉ s.accepted ∧ p ∉ s.working := by
  rcases a with ⟨x, order⟩ | _ | x | x | ⟨ns, st, sp⟩ | _ | _
  · obtain rfl | ⟨hnew, hsort, rfl⟩ := step_push hs
    · exact .inl hin
    · rcases List.mem_append.mp (hsort.1.mem_iff.mp hin) with hq | hx
      · exact .inl hq
      · rw [List.mem_singleton.mp hx]
        exact .inr (not_or.mp hnew)
  · obtain ⟨skipped, -, ⟨-, rfl⟩ | ⟨x, rest, hq, -, rfl⟩⟩ := step_pop hs
    · simp at hin
    · rw [hq]
      exact .inl (List.mem_append_right _ (List.mem_cons_of_mem _ hin))
  · obtain ⟨-, rfl⟩ := step_beginRunning hs
    exact .inl hin
  · obtain ⟨-, rfl⟩ := step_finishTask hs
    exact .inl hin
  · cases hs
    exact .inl hin
  · cases hs
    exact .inl hin
  · cases hs
    simp [SPCTaskQueue.drainRemaining] at hin

/-- Between the two reads a task goes from the queue to the running ones and never back. -/
theorem hasActiveTask_eq_true (h : Inv s) {as : List Act} (hrun : run step s as = some s')
    (halong : Along step (fun t _ => t.Active d p) s as) (hact : s'.Active d p) : hasActiveTask d s s' = true := by
  unfold hasActiveTask
  rw [Bool.or_eq_true]
  by_cases hq : s.queue.hasQueuedTask s.tasks d = true
  · exact .inl hq
  · refine .inr ?_
    -- the task is not queued at the first read, so it is in progress, and stays so
    have hfirst : s.Active d p → p ∈ s.working := by
      rintro ⟨hdoc, hlive, hin | hin⟩
      · exfalso
        apply hq
        unfold SPCTaskQueue.hasQueuedTask
        rw [List.any_eq_true]
        exact ⟨p, hin, by simp [hdoc, hlive]⟩
      · exact hin
    obtain ⟨hinv, hwork⟩ : Inv s' ∧ (s'.Active d p → p ∈ s'.working) := by
      refine run_inv (I := fun t => Inv t ∧ (t.Active d p → p ∈ t.working)) ?_ ⟨h, hfirst⟩ halong hrun
      rintro t b t' ⟨ht, hw⟩ hactive hs
      refine ⟨ht.step hs, ?_⟩
      rintro ⟨-, -, hin | hin⟩
      · rcases queued_step hs hin with hbefore | ⟨-, hnot⟩
        · exact absurd hbefore (ht.left p (hw hactive))
        · exact absurd (hw hactive) hnot
      · exact hin
    have hpos : 0 < s'.working.countP fun x => decide ((s'.tasks x).docId = d) := by
      rw [List.countP_pos_iff]
      exact ⟨p, hwork hact, by simp [hact.1]⟩
    show decide (0 < s'.queue.running d) = true
    rw [hinv.running]
    exact decide_eq_true hpos

/-! ## The queue over a run -/

/-- Every task `Push` took is handed out at most once; one that is not cancelled is handed out, or else still queued,
which after `DrainRemaining` none is. `Pop` hands out a least task of those not cancelled, and finds one if there is
one. `HasActiveTask` is true when some task of the document is active from its first read to its second. -/
theorem queue_loses_nothing {maxSize : Int} {tasks : SPCTasks} {as : List Act}
    (hrun : run step (start maxSize tasks) as = some s) :
    (∀ p ∈ s.accepted, s.handedOut.count p ≤ 1 ∧
      ((s.tasks p).cancelled = false → s.handedOut.count p = 1 ∧ p ∉ s.queue.queue ∨
        s.handedOut.count p = 0 ∧ s.queue.queue.count p = 1)) ∧
    (∀ p ∈ s.handedOut, p ∈ s.accepted) ∧
    (∀ s', step s .drainRemaining = some s' →
      ∀ p ∈ s'.accepted, (s'.tasks p).cancelled = false → s'.handedOut.count p = 1) ∧
    (∀ p q, s.queue.pop s.tasks = (some p, q) → p ∈ s.queue.queue ∧ (s.tasks p).cancelled = false ∧
      ∀ x ∈ s.queue.queue, (s.tasks x).cancelled = false → (s.tasks x).before (s.tasks p) = false) ∧
    (∀ p ∈ s.queue.queue, (s.tasks p).cancelled = false → ∃ p' q, s.queue.pop s.tasks = (some p', q)) ∧
    ∀ d p as' s', run step s as' = some s' → Along step (fun t _ => t.Active d p) s as' → s'.Active d p →
      hasActiveTask d s s' = true := by
  have hinv := inv_run hrun
  have haccepted : ∀ {t : State}, Inv t → ∀ p ∈ t.accepted, t.accepted.count p = 1 := by
    intro t ht p hp
    have := List.nodup_iff_count.mp ht.once p
    have : 0 < t.accepted.count p := List.count_pos_iff.mpr hp
    omega
  refine ⟨fun p hp => ?_, fun p hp => ?_, fun s' hs p hp hlive => ?_, fun p q hpop => pop_first hinv hpop,
    fun p hp hlive => pop_finds hp hlive, fun d p as' s' hrun' halong hact =>
      hasActiveTask_eq_true hinv hrun' halong hact⟩
  · have hone := haccepted hinv p hp
    have hle := hinv.le p
    refine ⟨by omega, fun hlive => ?_⟩
    have heq := hinv.eq p hlive
    by_cases hq : p ∈ s.queue.queue
    · have : 0 < s.queue.queue.count p := List.count_pos_iff.mpr hq
      exact .inr ⟨by omega, by omega⟩
    · have : s.queue.queue.count p = 0 := List.count_eq_zero.mpr hq
      exact .inl ⟨by omega, hq⟩
  · have : 0 < s.handedOut.count p := List.count_pos_iff.mpr hp
    have := hinv.le p
    exact List.count_pos_iff.mp (by omega)
  · have hinv' := hinv.step hs
    have hone := haccepted hinv' p hp
    have heq := hinv'.eq p hlive
    have hempty : s'.queue.queue = [] := by
      rw [← Option.some.inj hs]
      rfl
    rw [hempty, List.count_nil] at heq
    omega

def twoFiles : SPCTasks := fun p =>
  { docId := if p = 0 then "a" else "b"
    namespaceName := "ns"
    sourceType := "watch_dir"
    sourcePath := if p = 0 then "/a" else "/b"
    createdAtUs := p }

def cancelledInFront : List Act :=
  [.push 0 [0], .push 1 [0, 1], .cancelQueuedVersions "ns" "watch_dir" "/a"]

theorem queue_loses_nothing_cancelledInFront : ∃ s s', run step (start 4 twoFiles) cancelledInFront = some s ∧
    run step s [.pop] = some s' ∧ s'.handedOut = [1] ∧ hasActiveTask "b" s s' = true := by
  refine ⟨_, _, rfl, rfl, rfl, ?_⟩
  have h := queue_loses_nothing (show run step (start 4 twoFiles) cancelledInFront = some _ from rfl)
  exact h.2.2.2.2.2 "b" 1 [.pop] _ rfl (by decide) (by decide)

end TaskQueue
end Cortrix.Spc
