import Mathlib.Data.List.Count
import Cortrix.Lib.Parties
import Cortrix.Lib.Run

/-!
# The queue of the memory extraction

`MemoryQueue`: producers push interactions, workers run the handler on them and retry, a periodic scan pushes what was
never extracted, and `Stop` joins the workers, then the scan. An accepted push has a ticket, the number of its
acceptance, that follows the item.

* `Inv` : every ticket is in one place, and no item has had more handler runs than tries; `Next` : the cases of a step;
* `accounted_iff_taken` : once `Stop` has returned, all items are accounted for exactly if each was taken while a
  worker was there.
-/

namespace Cortrix.Memory
open Lib

namespace MemoryQueue

/-- `MemoryQueue::Config`, without the period of the scan. -/
structure Config where
  workerCount : Int := 4
  queueMaxSize : Nat := 10000
  retryMax : Int := 3

/-- The constructor's floor under each of the numbers. -/
def Config.clamped (c : Config) : Config where
  workerCount := if c.workerCount < 1 then 1 else c.workerCount
  queueMaxSize := if c.queueMaxSize = 0 then 1 else c.queueMaxSize
  retryMax := if c.retryMax < 0 then 0 else c.retryMax

/-- A queued item, and the ticket of the push that was accepted. -/
structure MemoryQueueItem (ι τ : Type) where
  ticket : Nat
  interaction : ι
  ctx : Option τ
  attempt : Nat := 0

/-- Where a worker stands in `WorkerLoop`. -/
inductive Worker (ι τ : Type)
  | popping
  | handling (item : MemoryQueueItem ι τ)
  /-- The handler failed, and the item has a try left. -/
  | retrying (item : MemoryQueueItem ι τ)
  /-- On the way to the dead-letter sink. -/
  | burying (item : MemoryQueueItem ι τ)
  | exited

def Worker.hasExited {ι τ : Type} : Worker ι τ → Bool
  | .exited => true
  | .popping => false
  | .handling _ => false
  | .retrying _ => false
  | .burying _ => false

inductive Scanner (ι : Type)
  | absent
  | waiting
  /-- In `RunPeriodicScanOnce`, these interactions to be pushed. -/
  | scanning (pending : List ι)
  | exited

def Scanner.isGone {ι : Type} : Scanner ι → Bool
  | .absent => true
  | .exited => true
  | .waiting => false
  | .scanning _ => false

structure State (ι τ : Type) where
  config : Config
  queue : List (MemoryQueueItem ι τ) := []
  stop : Bool := false
  workers : List (Worker ι τ) := []
  scanner : Scanner ι := .absent
  /-- `Stop` has returned. -/
  stopped : Bool := false
  accepted : Nat := 0
  processed : List Nat := []
  deadLettered : List Nat := []
  handled : List Nat := []

variable {ι τ : Type}

namespace State

def hasRoom (s : State ι τ) : Bool := s.queue.length < s.config.queueMaxSize

/-- `Push`. A full queue is left as it is, and the push returns false. -/
def push (s : State ι τ) (interaction : ι) (ctx : Option τ) : State ι τ :=
  if s.hasRoom then
    { s with
      queue := s.queue ++ [{ ticket := s.accepted, interaction := interaction, ctx := ctx }]
      accepted := s.accepted + 1 }
  else s

def setWorker (s : State ι τ) (w : Nat) (x : Worker ι τ) : State ι τ := { s with workers := s.workers.set w x }

/-- `StartWorkers`, and `StartPeriodicScan` if there is to be a scan. -/
def startThreads (s : State ι τ) (scan : Bool) : State ι τ :=
  { s with
    workers := List.replicate s.config.workerCount.toNat .popping
    scanner := if scan then .waiting else .absent }

end State

inductive Act (ι τ : Type)
  | push (interaction : ι) (ctx : Option τ)
  | pop (w : Nat)
  | handle (w : Nat) (ok : Bool)
  | retry (w : Nat)
  | bury (w : Nat)
  /-- The scan is due, and its source returns these. -/
  | scanTick (pending : List ι)
  | scanPush
  | scanDone
  | scanExit
  | stop
  | stopReturns

def step (s : State ι τ) : Act ι τ → Option (State ι τ)
  | .push interaction ctx => some (s.push interaction ctx)
  | .pop w =>
    match s.workers[w]?, s.queue with
    | some .popping, item :: rest => some ({ s with queue := rest }.setWorker w (.handling item))
    | some .popping, [] => if s.stop then some (s.setWorker w .exited) else none
    | _, _ => none
  | .handle w ok =>
    match s.workers[w]? with
    | some (.handling item) =>
      let s := { s with handled := item.ticket :: s.handled }
      if ok then some ({ s with processed := item.ticket :: s.processed }.setWorker w .popping)
      else if (item.attempt : Int) < s.config.retryMax then
        some (s.setWorker w (.retrying { item with attempt := item.attempt + 1 }))
      else some (s.setWorker w (.burying item))
    | _ => none
  | .retry w =>
    match s.workers[w]? with
    | some (.retrying item) =>
      if !s.stop && s.hasRoom then some ({ s with queue := s.queue ++ [item] }.setWorker w .popping)
      else some (s.setWorker w (.burying item))
    | _ => none
  | .bury w =>
    match s.workers[w]? with
    | some (.burying item) => some ({ s with deadLettered := item.ticket :: s.deadLettered }.setWorker w .popping)
    | _ => none
  | .scanTick pending =>
    match s.scanner with
    | .waiting => if s.stop then none else some { s with scanner := .scanning pending }
    | _ => none
  | .scanPush =>
    match s.scanner with
    | .scanning (interaction :: pending) => some { s.push interaction none with scanner := .scanning pending }
    | _ => none
  | .scanDone =>
    match s.scanner with
    | .scanning [] => some { s with scanner := .waiting }
    | _ => none
  | .scanExit =>
    match s.scanner with
    | .waiting => if s.stop then some { s with scanner := .exited } else none
    | _ => none
  | .stop => some { s with stop := true }
  | .stopReturns =>
    -- the workers are joined first, then the periodic thread
    if s.stop && s.workers.all Worker.hasExited && s.scanner.isGone then some { s with stopped := true }
    else none

/-- The queue when its threads start: pushes may have come before. -/
def start (config : Config) (before : List (ι × Option τ)) (scan : Bool) : State ι τ :=
  (before.foldl (fun (s : State ι τ) x => s.push x.1 x.2) { config := config.clamped }).startThreads scan

/-- Every accepted item is processed or dead-lettered, once. -/
def State.Accounted (s : State ι τ) : Prop :=
  ∀ t < s.accepted, s.processed.count t + s.deadLettered.count t = 1

/-! ## Where the tickets are -/

def Worker.item : Worker ι τ → Option (MemoryQueueItem ι τ)
  | .popping => none
  | .handling item => some item
  | .retrying item => some item
  | .burying item => some item
  | .exited => none

def Worker.tickets (w : Worker ι τ) : List Nat := (w.item.map MemoryQueueItem.ticket).toList

namespace State

/-- The tickets that wait or are being worked on. -/
def pending (s : State ι τ) (t : Nat) : Nat :=
  (s.queue.map MemoryQueueItem.ticket).count t + (s.workers.flatMap Worker.tickets).count t

def places (s : State ι τ) (t : Nat) : Nat := s.pending t + s.processed.count t + s.deadLettered.count t

/-- A queued item, or one in the hands of a worker that is not on the way to the sink, has a try left: the handler
ran on it once for each earlier try. -/
def Tried (s : State ι τ) (item : MemoryQueueItem ι τ) : Prop :=
  s.handled.count item.ticket = item.attempt ∧ (item.attempt : Int) ≤ s.config.retryMax

end State

def Worker.trying : Worker ι τ → Option (MemoryQueueItem ι τ)
  | .popping => none
  | .handling item => some item
  | .retrying item => some item
  | .burying _ => none
  | .exited => none

structure Inv (s : State ι τ) : Prop where
  places : ∀ t, s.places t = if t < s.accepted then 1 else 0
  queued : ∀ item ∈ s.queue, s.Tried item
  held : ∀ w ∈ s.workers, ∀ item ∈ w.trying, s.Tried item
  runs : ∀ t, (s.handled.count t : Int) ≤ s.config.retryMax + 1
  unborn : ∀ t, s.accepted ≤ t → s.handled.count t = 0
  room : s.queue.length ≤ s.config.queueMaxSize
  retryMax : 0 ≤ s.config.retryMax

variable {s s' : State ι τ} {a : Act ι τ}

theorem Inv.fresh (config : Config) : Inv ({ config := config.clamped } : State ι τ) := by
  have hretry : 0 ≤ config.clamped.retryMax := by
    unfold Config.clamped
    dsimp only
    split <;> omega
  refine ⟨fun t => rfl, fun _ h => absurd h List.not_mem_nil, fun _ h => absurd h List.not_mem_nil, fun t => ?_,
    fun _ _ => rfl, Nat.zero_le _, hretry⟩
  show (0 : Int) ≤ config.clamped.retryMax + 1
  omega

@[simp] theorem push_workers (s : State ι τ) (interaction : ι) (ctx : Option τ) :
    (s.push interaction ctx).workers = s.workers := by
  unfold State.push
  split <;> rfl

@[simp] theorem push_config (s : State ι τ) (interaction : ι) (ctx : Option τ) :
    (s.push interaction ctx).config = s.config := by
  unfold State.push
  split <;> rfl

@[simp] theorem push_stopped (s : State ι τ) (interaction : ι) (ctx : Option τ) :
    (s.push interaction ctx).stopped = s.stopped := by
  unfold State.push
  split <;> rfl

theorem Inv.push (h : Inv s) (interaction : ι) (ctx : Option τ) : Inv (s.push interaction ctx) := by
  unfold State.push
  split
  · rename_i hroom
    have hroom : s.queue.length < s.config.queueMaxSize := of_decide_eq_true hroom
    have hretry := h.retryMax
    have hplaces : ∀ (item : MemoryQueueItem ι τ) t, ((s.queue ++ [item]).map MemoryQueueItem.ticket).count t =
        (s.queue.map MemoryQueueItem.ticket).count t + [item.ticket].count t := by
      intro item t
      rw [List.map_append, List.count_append]
      rfl
    refine ⟨fun t => ?_, ?_, h.held, h.runs, fun t ht => h.unborn t (Nat.le_of_succ_le ht), ?_, hretry⟩
    · have := h.places t
      show _ + _ + s.processed.count t + s.deadLettered.count t = if t < s.accepted + 1 then 1 else 0
      rw [hplaces, List.count_singleton]
      unfold State.places State.pending at this
      by_cases ht : t = s.accepted
      · rw [ht] at this ⊢
        simp at this ⊢
        omega
      · have hlt : t < s.accepted + 1 ↔ t < s.accepted := by omega
        simp only [hlt, beq_false_of_ne (Ne.symm ht)]
        simpa using this
    · intro item hitem
      rcases List.mem_append.mp hitem with hold | hnew
      · exact h.queued item hold
      · rw [List.mem_singleton.mp hnew]
        exact ⟨h.unborn _ (Nat.le_refl _), hretry⟩
    · rw [List.length_append, List.length_singleton]
      exact hroom
  · exact h

theorem Inv.startThreads (h : Inv s) (hnone : s.workers = []) (scan : Bool) : Inv (s.startThreads scan) := by
  have hworkers : ∀ n, (List.replicate n (Worker.popping : Worker ι τ)).flatMap Worker.tickets = [] := by
    intro n
    simp [Worker.tickets, Worker.item]
  refine ⟨fun t => ?_, h.queued, ?_, h.runs, h.unborn, h.room, h.retryMax⟩
  · have := h.places t
    unfold State.places State.pending at this ⊢
    rw [hnone] at this
    show _ + ((List.replicate _ Worker.popping).flatMap Worker.tickets).count t + s.processed.count t +
      s.deadLettered.count t = _
    rw [hworkers]
    exact this
  · intro w hw item hitem
    rw [List.eq_of_mem_replicate hw] at hitem
    cases hitem

theorem Inv.start (config : Config) (before : List (ι × Option τ)) (scan : Bool) : Inv (start config before scan) := by
  have hfold : ∀ (xs : List (ι × Option τ)) (s : State ι τ), Inv s ∧ s.workers = [] →
      Inv (xs.foldl (fun (s : State ι τ) x => s.push x.1 x.2) s) ∧
        (xs.foldl (fun (s : State ι τ) x => s.push x.1 x.2) s).workers = [] := by
    intro xs
    induction xs with
    | nil => exact fun s h => h
    | cons x xs ih =>
      intro s h
      exact ih _ ⟨h.1.push x.1 x.2, (push_workers s x.1 x.2).trans h.2⟩
  obtain ⟨hinv, hnone⟩ := hfold before _ ⟨.fresh config, rfl⟩
  exact hinv.startThreads hnone scan

theorem Inv.rescanned (h : Inv s) (scanner : Scanner ι) : Inv { s with scanner := scanner } :=
  ⟨h.places, h.queued, h.held, h.runs, h.unborn, h.room, h.retryMax⟩

/-! ## The workers -/

theorem Inv.perm (h : Inv s) {ws : List (Worker ι τ)} (hp : s.workers.Perm ws) : Inv { s with workers := ws } := by
  refine ⟨fun t => ?_, h.queued, fun w hw => h.held w (hp.mem_iff.mpr hw), h.runs, h.unborn, h.room, h.retryMax⟩
  have := h.places t
  unfold State.places State.pending at this ⊢
  rwa [(hp.flatMap_right Worker.tickets).count_eq] at this

variable {item : MemoryQueueItem ι τ} {rest : List (MemoryQueueItem ι τ)} {others : List (Worker ι τ)} {w : Worker ι τ}

theorem places_cons (hws : s.workers = w :: others) (t : Nat) :
    s.places t = (s.queue.map MemoryQueueItem.ticket).count t + w.tickets.count t +
      (others.flatMap Worker.tickets).count t + s.processed.count t + s.deadLettered.count t := by
  unfold State.places State.pending
  rw [hws, List.flatMap_cons, List.count_append]
  omega

theorem Inv.exchange (h : Inv s) (hws : s.workers = w :: others) (w' : Worker ι τ) (hsame : w'.tickets = w.tickets)
    (htry : ∀ item ∈ w'.trying, s.Tried item) : Inv { s with workers := w' :: others } := by
  have hheld := h.held
  rw [hws, List.forall_mem_cons] at hheld
  refine ⟨fun t => ?_, h.queued, List.forall_mem_cons.mpr ⟨htry, hheld.2⟩, h.runs, h.unborn, h.room, h.retryMax⟩
  rw [places_cons (w := w') rfl, hsame, ← h.places t, places_cons hws]

theorem Inv.popped (h : Inv s) (hws : s.workers = .popping :: others) (hq : s.queue = item :: rest) :
    Inv { s with queue := rest, workers := .handling item :: others } := by
  have hheld := h.held
  have hqueued := h.queued
  have hroom := h.room
  rw [hws, List.forall_mem_cons] at hheld
  rw [hq, List.forall_mem_cons] at hqueued
  rw [hq, List.length_cons] at hroom
  refine ⟨fun t => ?_, hqueued.2, List.forall_mem_cons.mpr ⟨fun x hx => ?_, hheld.2⟩, h.runs, h.unborn, ?_, h.retryMax⟩
  · rw [places_cons (w := .handling item) rfl, ← h.places t, places_cons hws, hq, List.map_cons, List.count_cons]
    show _ + [item.ticket].count t + _ + _ + _ = _ + ([] : List Nat).count t + _ + _ + _
    rw [List.count_singleton, List.count_nil]
    show (rest.map MemoryQueueItem.ticket).count t + _ + _ + s.processed.count t + s.deadLettered.count t = _
    omega
  · obtain rfl : item = x := Option.mem_some_iff.mp hx
    exact hqueued.1
  · show rest.length ≤ s.config.queueMaxSize
    omega

theorem Inv.alone (h : Inv s) (hws : s.workers = w :: others) (hitem : w.item = some item) :
    (∀ x ∈ s.queue, x.ticket ≠ item.ticket) ∧ ∀ w' ∈ others, ∀ x ∈ w'.item, x.ticket ≠ item.ticket := by
  have hplaces := h.places item.ticket
  have hone : w.tickets.count item.ticket = 1 := by
    unfold Worker.tickets
    rw [hitem]
    simp
  have hle : (if item.ticket < s.accepted then 1 else 0) ≤ 1 := by split <;> omega
  rw [places_cons hws, hone] at hplaces
  refine ⟨fun x hx heq => ?_, fun w' hw' x hx heq => ?_⟩
  · have : 0 < (s.queue.map MemoryQueueItem.ticket).count item.ticket :=
      List.count_pos_iff.mpr (heq ▸ List.mem_map_of_mem hx)
    omega
  · have : 0 < (others.flatMap Worker.tickets).count item.ticket := by
      refine List.count_pos_iff.mpr (List.mem_flatMap.mpr ⟨w', hw', ?_⟩)
      unfold Worker.tickets
      rw [Option.mem_def.mp hx, ← heq]
      simp
    omega

theorem Worker.item_of_trying {x : MemoryQueueItem ι τ} (h : x ∈ w.trying) : x ∈ w.item := by
  rcases w with - | y | y | y | -
  · cases h
  · exact h
  · exact h
  · cases h
  · cases h

theorem Inv.handled (h : Inv s) (hws : s.workers = .handling item :: others) :
    (∀ x ∈ s.queue, State.Tried { s with handled := item.ticket :: s.handled } x) ∧
    (∀ w ∈ others, ∀ x ∈ w.trying, State.Tried { s with handled := item.ticket :: s.handled } x) ∧
    (item.ticket :: s.handled).count item.ticket = item.attempt + 1 ∧
    (∀ t, ((item.ticket :: s.handled).count t : Int) ≤ s.config.retryMax + 1) ∧
    ∀ t, s.accepted ≤ t → (item.ticket :: s.handled).count t = 0 := by
  have hheld := h.held
  rw [hws, List.forall_mem_cons] at hheld
  obtain ⟨hcount, hmax⟩ := hheld.1 item rfl
  obtain ⟨hqueue, hothers⟩ := h.alone hws rfl
  have hother : ∀ x : MemoryQueueItem ι τ, x.ticket ≠ item.ticket → s.Tried x →
      State.Tried { s with handled := item.ticket :: s.handled } x := by
    intro x hne hx
    refine ⟨?_, hx.2⟩
    show (item.ticket :: s.handled).count x.ticket = x.attempt
    rw [List.count_cons_of_ne (Ne.symm hne)]
    exact hx.1
  refine ⟨fun x hx => hother x (hqueue x hx) (h.queued x hx), fun w hw x hx => ?_, ?_, fun t => ?_, fun t ht => ?_⟩
  · exact hother x (hothers w hw x (Worker.item_of_trying hx)) (hheld.2 w hw x hx)
  · rw [List.count_cons_self, hcount]
  · by_cases ht : t = item.ticket
    · rw [ht, List.count_cons_self, hcount]
      omega
    · rw [List.count_cons_of_ne (Ne.symm ht)]
      exact h.runs t
  · have hborn : item.ticket < s.accepted := by
      by_contra hnot
      have hplaces := h.places item.ticket
      rw [if_neg hnot, places_cons hws] at hplaces
      have : (Worker.handling item : Worker ι τ).tickets.count item.ticket = 1 := by simp [Worker.tickets, Worker.item]
      omega
    rw [List.count_cons_of_ne (by omega)]
    exact h.unborn t ht

theorem Inv.processed (h : Inv s) (hws : s.workers = .handling item :: others) :
    Inv { s with
      handled := item.ticket :: s.handled
      processed := item.ticket :: s.processed
      workers := .popping :: others } := by
  obtain ⟨hqueued, hheld, -, hruns, hunborn⟩ := h.handled hws
  refine ⟨fun t => ?_, hqueued, List.forall_mem_cons.mpr ⟨fun _ hx => (by cases hx), hheld⟩, hruns, hunborn, h.room,
    h.retryMax⟩
  rw [places_cons (w := .popping) rfl, ← h.places t, places_cons hws]
  show _ + ([] : List Nat).count t + _ + (item.ticket :: s.processed).count t + _ =
    _ + [item.ticket].count t + _ + _ + _
  rw [List.count_nil, List.count_singleton, List.count_cons]
  show (s.queue.map MemoryQueueItem.ticket).count t + _ + _ + _ + s.deadLettered.count t = _
  omega

theorem Inv.failed (h : Inv s) (hws : s.workers = .handling item :: others) {w' : Worker ι τ}
    (hw : w' = .burying item ∨ w' = .retrying { item with attempt := item.attempt + 1 } ∧
      (item.attempt : Int) < s.config.retryMax) :
    Inv { s with handled := item.ticket :: s.handled, workers := w' :: others } := by
  obtain ⟨hqueued, hheld, hcount, hruns, hunborn⟩ := h.handled hws
  refine ⟨fun t => ?_, hqueued, List.forall_mem_cons.mpr ⟨fun x hx => ?_, hheld⟩, hruns, hunborn, h.room, h.retryMax⟩
  · have htickets : w'.tickets = [item.ticket] := by rcases hw with rfl | ⟨rfl, -⟩ <;> rfl
    rw [places_cons (w := w') rfl, htickets, ← h.places t, places_cons hws]
    rfl
  · rcases hw with rfl | ⟨rfl, hlt⟩
    · cases hx
    · obtain rfl := Option.mem_some_iff.mp hx
      refine ⟨hcount, ?_⟩
      show ((item.attempt + 1 : Nat) : Int) ≤ s.config.retryMax
      omega

theorem Inv.retried (h : Inv s) (hws : s.workers = .retrying item :: others)
    (hroom : s.queue.length < s.config.queueMaxSize) :
    Inv { s with queue := s.queue ++ [item], workers := .popping :: others } := by
  have hheld := h.held
  rw [hws, List.forall_mem_cons] at hheld
  refine ⟨fun t => ?_, fun x hx => ?_, List.forall_mem_cons.mpr ⟨fun _ hx => (by cases hx), hheld.2⟩, h.runs,
    h.unborn, ?_, h.retryMax⟩
  · rw [places_cons (w := .popping) rfl, ← h.places t, places_cons hws, List.map_append, List.count_append]
    show _ + [item.ticket].count t + ([] : List Nat).count t + _ + _ + _ = _ + [item.ticket].count t + _ + _ + _
    rw [List.count_nil]
    show (s.queue.map MemoryQueueItem.ticket).count t + _ + _ + _ + s.processed.count t + s.deadLettered.count t = _
    omega
  · rcases List.mem_append.mp hx with hold | hnew
    · exact h.queued x hold
    · rw [List.mem_singleton.mp hnew]
      exact hheld.1 item rfl
  · rw [List.length_append, List.length_singleton]
    exact hroom

theorem Inv.buried (h : Inv s) (hws : s.workers = .burying item :: others) :
    Inv { s with deadLettered := item.ticket :: s.deadLettered, workers := .popping :: others } := by
  have hheld := h.held
  rw [hws, List.forall_mem_cons] at hheld
  refine ⟨fun t => ?_, h.queued, List.forall_mem_cons.mpr ⟨fun _ hx => (by cases hx), hheld.2⟩, h.runs, h.unborn,
    h.room, h.retryMax⟩
  rw [places_cons (w := .popping) rfl, ← h.places t, places_cons hws]
  show _ + ([] : List Nat).count t + _ + _ + (item.ticket :: s.deadLettered).count t =
    _ + [item.ticket].count t + _ + _ + _
  rw [List.count_nil, List.count_singleton, List.count_cons]
  show (s.queue.map MemoryQueueItem.ticket).count t + _ + _ + s.processed.count t + _ = _
  omega

/-- What a step does: a worker goes on, an interaction is pushed, or the scan or `Stop` does. -/
inductive Next (s : State ι τ) : Act ι τ → State ι τ → Prop
  | push (x : ι) (ctx : Option τ) : Next s (.push x ctx) (s.push x ctx)
  | popped {w : Nat} {item : MemoryQueueItem ι τ} {rest : List (MemoryQueueItem ι τ)}
      (hw : s.workers[w]? = some .popping) (hq : s.queue = item :: rest) :
      Next s (.pop w) ({ s with queue := rest }.setWorker w (.handling item))
  | left {w : Nat} (hw : s.workers[w]? = some .popping) (hq : s.queue = []) : Next s (.pop w) (s.setWorker w .exited)
  | processed {w : Nat} {ok : Bool} {item : MemoryQueueItem ι τ} (hw : s.workers[w]? = some (.handling item)) :
      Next s (.handle w ok) ({ s with
        handled := item.ticket :: s.handled
        processed := item.ticket :: s.processed }.setWorker w .popping)
  | failed {w : Nat} {ok : Bool} {item : MemoryQueueItem ι τ} {w' : Worker ι τ}
      (hw : s.workers[w]? = some (.handling item))
      (hw' : w' = .burying item ∨ w' = .retrying { item with attempt := item.attempt + 1 } ∧
        (item.attempt : Int) < s.config.retryMax) :
      Next s (.handle w ok) ({ s with handled := item.ticket :: s.handled }.setWorker w w')
  | retried {w : Nat} {item : MemoryQueueItem ι τ} (hw : s.workers[w]? = some (.retrying item))
      (hroom : s.queue.length < s.config.queueMaxSize) :
      Next s (.retry w) ({ s with queue := s.queue ++ [item] }.setWorker w .popping)
  | givenUp {w : Nat} {item : MemoryQueueItem ι τ} (hw : s.workers[w]? = some (.retrying item)) :
      Next s (.retry w) (s.setWorker w (.burying item))
  | buried {w : Nat} {item : MemoryQueueItem ι τ} (hw : s.workers[w]? = some (.burying item)) :
      Next s (.bury w) ({ s with deadLettered := item.ticket :: s.deadLettered }.setWorker w .popping)
  | scanned (pending : List ι) : Next s (.scanTick pending) { s with scanner := .scanning pending }
  | pushed (x : ι) (pending : List ι) : Next s .scanPush { s.push x none with scanner := .scanning pending }
  | scanDone : Next s .scanDone { s with scanner := .waiting }
  | scanExit : Next s .scanExit { s with scanner := .exited }
  | stop : Next s .stop { s with stop := true }
  | joined (hjoined : s.workers.all Worker.hasExited = true) : Next s .stopReturns { s with stopped := true }

theorem step_next (hs : step s a = some s') : Next s a s' := by
  rcases a with ⟨x, ctx⟩ | w | ⟨w, ok⟩ | w | w | pending | _ | _ | _ | _ | _
  · exact Option.some.inj hs ▸ .push x ctx
  · simp only [step] at hs
    split at hs
    · exact Option.some.inj hs ▸ .popped ‹_› ‹_›
    · split at hs
      · exact Option.some.inj hs ▸ .left ‹_› ‹_›
      · cases hs
    · cases hs
  · simp only [step] at hs
    split at hs
    · split at hs
      · exact Option.some.inj hs ▸ .processed ‹_›
      · split at hs
        · exact Option.some.inj hs ▸ .failed ‹_› (.inr ⟨rfl, ‹_›⟩)
        · exact Option.some.inj hs ▸ .failed ‹_› (.inl rfl)
    · cases hs
  · simp only [step] at hs
    split at hs
    · split at hs
      · rename_i hgo
        exact Option.some.inj hs ▸ .retried ‹_› (of_decide_eq_true (Bool.and_eq_true_iff.mp hgo).2)
      · exact Option.some.inj hs ▸ .givenUp ‹_›
    · cases hs
  · simp only [step] at hs
    split at hs
    · exact Option.some.inj hs ▸ .buried ‹_›
    · cases hs
  · simp only [step] at hs
    split at hs
    · split at hs
      · cases hs
      · exact Option.some.inj hs ▸ .scanned pending
    · cases hs
  · simp only [step] at hs
    split at hs
    · exact Option.some.inj hs ▸ .pushed _ _
    · cases hs
  · simp only [step] at hs
    split at hs
    · exact Option.some.inj hs ▸ .scanDone
    · cases hs
  · simp only [step] at hs
    split at hs
    · split at hs
      · exact Option.some.inj hs ▸ .scanExit
      · cases hs
    · cases hs
  · exact Option.some.inj hs ▸ .stop
  · simp only [step] at hs
    split at hs
    · rename_i hjoined
      rw [Bool.and_eq_true, Bool.and_eq_true] at hjoined
      exact Option.some.inj hs ▸ .joined hjoined.1.2
    · cases hs

theorem Inv.step (h : Inv s) (hs : step s a = some s') : Inv s' := by
  cases step_next hs with
  | push x ctx => exact h.push x ctx
  | @popped _ item _ hw hq =>
    obtain ⟨others, hperm, hperm'⟩ := exists_others hw (.handling item)
    exact ((h.perm hperm).popped rfl hq).perm hperm'.symm
  | left hw hq =>
    obtain ⟨others, hperm, hperm'⟩ := exists_others hw .exited
    exact ((h.perm hperm).exchange rfl .exited rfl fun _ hx => (by cases hx)).perm hperm'.symm
  | processed hw =>
    obtain ⟨others, hperm, hperm'⟩ := exists_others hw .popping
    exact ((h.perm hperm).processed rfl).perm hperm'.symm
  | @failed _ _ _ w' hw hw' =>
    obtain ⟨others, hperm, hperm'⟩ := exists_others hw w'
    exact ((h.perm hperm).failed rfl hw').perm hperm'.symm
  | retried hw hroom =>
    obtain ⟨others, hperm, hperm'⟩ := exists_others hw .popping
    exact ((h.perm hperm).retried rfl hroom).perm hperm'.symm
  | @givenUp _ item hw =>
    obtain ⟨others, hperm, hperm'⟩ := exists_others hw (.burying item)
    exact ((h.perm hperm).exchange rfl (.burying item) rfl fun _ hx => (by cases hx)).perm hperm'.symm
  | buried hw =>
    obtain ⟨others, hperm, hperm'⟩ := exists_others hw .popping
    exact ((h.perm hperm).buried rfl).perm hperm'.symm
  | scanned pending => exact h.rescanned _
  | pushed x pending => exact (h.push x none).rescanned _
  | scanDone | scanExit => exact h.rescanned _
  | stop | joined => exact ⟨h.places, h.queued, h.held, h.runs, h.unborn, h.room, h.retryMax⟩

/-! ## Items nobody is left to take -/

/-- Some worker has not left its loop. -/
def State.manned (s : State ι τ) : Bool := s.workers.any fun w => !w.hasExited

/-- A push that is accepted is accepted while a worker is there to take the item. -/
def Taken (s : State ι τ) : Act ι τ → Prop
  | .push _ _ => s.hasRoom = true → s.manned = true
  | .scanPush => s.hasRoom = true → s.manned = true
  | _ => True

instance (s : State ι τ) : ∀ a, Decidable (Taken s a)
  | .push _ _ => inferInstanceAs (Decidable (_ → _))
  | .scanPush => inferInstanceAs (Decidable (_ → _))
  | .pop _ => .isTrue trivial
  | .handle _ _ => .isTrue trivial
  | .retry _ => .isTrue trivial
  | .bury _ => .isTrue trivial
  | .scanTick _ => .isTrue trivial
  | .scanDone => .isTrue trivial
  | .scanExit => .isTrue trivial
  | .stop => .isTrue trivial
  | .stopReturns => .isTrue trivial

/-- A queue that waits for a worker, and none will come. -/
def Stranded (s : State ι τ) : Prop := s.manned = false ∧ s.queue ≠ []

/-- A step of a worker, or one that leaves the workers alone and lets the queue grow by at most an accepted push. -/
theorem step_cases (hs : step s a = some s') :
    s.manned = true ∧ (s'.manned = true ∨ s'.queue = []) ∨
      s'.workers = s.workers ∧ (s'.queue = s.queue ∧ Taken s a ∨
        s.queue.length < s'.queue.length ∧ (Taken s a ↔ s.manned = true)) := by
  have hworker : ∀ {w : Nat} {x : Worker ι τ}, s.workers[w]? = some x → x.hasExited = false → s.manned = true := by
    intro w x hw hx
    exact List.any_eq_true.mpr ⟨x, List.mem_of_getElem? hw, by simp [hx]⟩
  have hset : ∀ {t : State ι τ} {w : Nat} {x : Worker ι τ} (new : Worker ι τ), t.workers = s.workers →
      s.workers[w]? = some x → new.hasExited = false → (t.setWorker w new).manned = true := by
    intro t w x new ht hw hnew
    obtain ⟨others, -, hperm⟩ := exists_others hw new
    refine List.any_eq_true.mpr ⟨new, ?_, by simp [hnew]⟩
    show new ∈ t.workers.set w new
    rw [ht]
    exact hperm.mem_iff.mpr List.mem_cons_self
  have hpush : ∀ (x : ι) (ctx : Option τ), (s.push x ctx).queue = s.queue ∧ (s.hasRoom = true → s.manned = true) ∨
      s.queue.length < (s.push x ctx).queue.length ∧ ((s.hasRoom = true → s.manned = true) ↔ s.manned = true) := by
    intro x ctx
    unfold State.push
    split
    · rename_i hroom
      exact .inr ⟨by simp, by simp [hroom]⟩
    · rename_i hfull
      exact .inl ⟨rfl, fun hroom => absurd hroom hfull⟩
  cases step_next hs with
  | push x ctx => exact .inr ⟨push_workers s x ctx, hpush x ctx⟩
  | popped hw hq | processed hw | retried hw hroom | givenUp hw | buried hw =>
    exact .inl ⟨hworker hw rfl, .inl (hset _ rfl hw rfl)⟩
  | left hw hq => exact .inl ⟨hworker hw rfl, .inr hq⟩
  | failed hw hw' =>
    refine .inl ⟨hworker hw rfl, .inl (hset _ rfl hw ?_)⟩
    rcases hw' with rfl | ⟨rfl, -⟩ <;> rfl
  | scanned pending | scanDone | scanExit | stop | joined => exact .inr ⟨rfl, .inl ⟨rfl, trivial⟩⟩
  | pushed x pending => exact .inr ⟨push_workers s x none, hpush x none⟩

theorem manned_congr (h : s'.workers = s.workers) : s'.manned = s.manned := by
  unfold State.manned
  rw [h]

theorem drained_step (h : s.manned = false → s.queue = []) (ht : Taken s a) (hs : step s a = some s')
    (hgone : s'.manned = false) : s'.queue = [] := by
  rcases step_cases hs with ⟨-, hmanned | hq⟩ | ⟨hworkers, ⟨hq, -⟩ | ⟨-, htaken⟩⟩
  · rw [hgone] at hmanned
    cases hmanned
  · exact hq
  · rw [manned_congr hworkers] at hgone
    rw [hq]
    exact h hgone
  · rw [manned_congr hworkers, htaken.mp ht] at hgone
    cases hgone

theorem unmanned_step (h : s.manned = false) (hs : step s a = some s') : s'.workers = s.workers := by
  rcases step_cases hs with ⟨hmanned, -⟩ | ⟨hworkers, -⟩
  · rw [h] at hmanned
    cases hmanned
  · exact hworkers

theorem Stranded.step (h : Stranded s) (hs : step s a = some s') : Stranded s' := by
  obtain ⟨hgone, hq⟩ := h
  refine ⟨by rw [manned_congr (unmanned_step hgone hs), hgone], ?_⟩
  rcases step_cases hs with ⟨hmanned, -⟩ | ⟨-, ⟨heq, -⟩ | ⟨hlen, -⟩⟩
  · rw [hgone] at hmanned
    cases hmanned
  · rw [heq]
    exact hq
  · intro hnil
    rw [hnil, List.length_nil] at hlen
    omega

theorem taken_of_manned (h : s.manned = true) : Taken s a := by
  unfold Taken
  split <;> first | exact fun _ => h | trivial

theorem stranded_of_not_taken (ht : ¬ Taken s a) (hs : step s a = some s') : Stranded s' := by
  rcases step_cases hs with ⟨hmanned, -⟩ | ⟨hworkers, ⟨-, htaken⟩ | ⟨hlen, htaken⟩⟩
  · exact absurd (taken_of_manned hmanned) ht
  · exact absurd htaken ht
  · refine ⟨?_, fun hnil => ?_⟩
    · rw [manned_congr hworkers, Bool.eq_false_iff]
      exact fun hmanned => ht (htaken.mpr hmanned)
    · rw [hnil, List.length_nil] at hlen
      omega

theorem taken_or_stranded {s₀ : State ι τ} {as : List (Act ι τ)} (hrun : run step s₀ as = some s) :
    Along step Taken s₀ as ∨ Stranded s := by
  refine run_history (H := fun as t => Along step Taken s₀ as ∨ Stranded t) (.inl trivial) ?_ (along_true s₀ as) hrun
  rintro as t a t' hrun (halong | hstranded) - hs
  · by_cases ht : Taken t a
    · refine .inl (along_append.mpr ⟨halong, fun u hu => ?_⟩)
      rw [hrun] at hu
      cases hu
      exact along_cons.mpr ⟨ht, fun _ _ => trivial⟩
    · exact .inr (stranded_of_not_taken ht hs)
  · exact .inr (hstranded.step hs)

/-! ## After `Stop` -/

theorem not_manned_of_joined (h : s.workers.all Worker.hasExited = true) : s.manned = false := by
  unfold State.manned
  rw [Bool.eq_false_iff]
  intro hany
  obtain ⟨w, hw, hlive⟩ := List.any_eq_true.mp hany
  simp [List.all_eq_true.mp h w hw] at hlive

theorem step_frame (hs : step s a = some s') :
    s'.config = s.config ∧ (s'.stopped = s.stopped ∨ s'.manned = false) := by
  cases step_next hs with
  | push x ctx => exact ⟨push_config s x ctx, .inl (push_stopped s x ctx)⟩
  | pushed x pending => exact ⟨push_config s x none, .inl (push_stopped s x none)⟩
  | joined hjoined => exact ⟨rfl, .inr (not_manned_of_joined hjoined)⟩
  | _ => exact ⟨rfl, .inl rfl⟩

/-- What a run adds to the books: the configuration, and that a stopped queue has no workers. -/
structure Course (config : Config) (s : State ι τ) : Prop extends Inv s where
  config_eq : s.config = config
  gone : s.stopped = true → s.manned = false

theorem Course.step {config : Config} (h : Course config s) (hs : step s a = some s') : Course config s' := by
  obtain ⟨hconfig, hstopped⟩ := step_frame hs
  refine ⟨h.toInv.step hs, hconfig.trans h.config_eq, fun hstop => ?_⟩
  rcases hstopped with hsame | hgone
  · have hbefore := h.gone (hsame ▸ hstop)
    rw [manned_congr (unmanned_step hbefore hs)]
    exact hbefore
  · exact hgone

theorem Course.start (config : Config) (before : List (ι × Option τ)) (scan : Bool) :
    Course config.clamped (start config before scan) := by
  have hfold : ∀ (xs : List (ι × Option τ)) (s : State ι τ), s.config = config.clamped ∧ s.stopped = false →
      (xs.foldl (fun (s : State ι τ) x => s.push x.1 x.2) s).config = config.clamped ∧
        (xs.foldl (fun (s : State ι τ) x => s.push x.1 x.2) s).stopped = false := by
    intro xs
    induction xs with
    | nil => exact fun s h => h
    | cons x xs ih =>
      intro s h
      exact ih _ ⟨(push_config s x.1 x.2).trans h.1, (push_stopped s x.1 x.2).trans h.2⟩
  obtain ⟨hconfig, hstopped⟩ := hfold before { config := config.clamped } ⟨rfl, rfl⟩
  refine ⟨Inv.start config before scan, hconfig, fun hstop => ?_⟩
  have : (MemoryQueue.start config before scan).stopped = false := hstopped
  rw [this] at hstop
  simp at hstop

theorem manned_start (config : Config) (before : List (ι × Option τ)) (scan : Bool) :
    (start config before scan).manned = true := by
  have hconfig := (Course.start config before scan).config_eq
  have hcount : 0 < (start config before scan).config.workerCount.toNat := by
    rw [hconfig]
    unfold Config.clamped
    dsimp only
    split <;> omega
  refine List.any_eq_true.mpr ⟨.popping, ?_, rfl⟩
  show Worker.popping ∈ List.replicate (start config before scan).config.workerCount.toNat Worker.popping
  rw [List.mem_replicate]
  exact ⟨by omega, rfl⟩

/-- With the workers gone, what is not in the queue is accounted for. -/
theorem accounted_iff_empty (h : Inv s) (hgone : s.manned = false) : s.Accounted ↔ s.queue = [] := by
  have hhands : s.workers.flatMap Worker.tickets = [] := by
    rw [List.flatMap_eq_nil_iff]
    intro w hw
    have hexit : w.hasExited = true := by
      by_contra hlive
      have : s.manned = true := List.any_eq_true.mpr ⟨w, hw, by simpa using hlive⟩
      rw [hgone] at this
      simp at this
    rcases w with - | x | x | x | - <;> first | rfl | simp [Worker.hasExited] at hexit
  have hplaces : ∀ t, (s.queue.map MemoryQueueItem.ticket).count t + s.processed.count t + s.deadLettered.count t =
      if t < s.accepted then 1 else 0 := by
    intro t
    rw [← h.places t]
    unfold State.places State.pending
    rw [hhands, List.count_nil]
    omega
  constructor
  · intro hall
    rcases hq : s.queue with - | ⟨item, rest⟩
    · rfl
    · exfalso
      have hitem := hplaces item.ticket
      have hpos : 0 < (s.queue.map MemoryQueueItem.ticket).count item.ticket := by
        rw [hq, List.map_cons, List.count_cons_self]
        omega
      split at hitem
      · rename_i hlt
        have := hall item.ticket hlt
        omega
      · omega
  · intro hq t ht
    have := hplaces t
    rw [hq, List.map_nil, List.count_nil, if_pos ht] at this
    omega

/-- In every run the handler runs at most `retry_max + 1` times on an item, and the queue stays within its bound; and
once `Stop` has returned, every accepted item is processed or dead-lettered, once, exactly if each was accepted while
a worker was there. -/
theorem accounted_iff_taken {config : Config} {before : List (ι × Option τ)} {scan : Bool} {as : List (Act ι τ)}
    (hrun : run step (start config before scan) as = some s) :
    (∀ t, (s.handled.count t : Int) ≤ config.clamped.retryMax + 1) ∧
    s.queue.length ≤ config.clamped.queueMaxSize ∧
    (s.stopped = true → (s.Accounted ↔ Along step Taken (start config before scan) as)) := by
  have hcourse : Course config.clamped s :=
    run_inv (fun h _ hs => h.step hs) (Course.start config before scan) (along_true _ as) hrun
  have hruns := hcourse.runs
  have hroom := hcourse.room
  rw [hcourse.config_eq] at hruns hroom
  refine ⟨hruns, hroom, fun hstop => ?_⟩
  have hgone := hcourse.gone hstop
  rw [accounted_iff_empty hcourse.toInv hgone]
  constructor
  · intro hempty
    rcases taken_or_stranded hrun with halong | hstranded
    · exact halong
    · exact absurd hempty hstranded.2
  · intro halong
    have hdrained : s.manned = false → s.queue = [] := by
      refine run_inv (I := fun t => t.manned = false → t.queue = []) (fun h ht hs => drained_step h ht hs)
        (fun hnone => ?_) halong hrun
      rw [manned_start] at hnone
      simp at hnone
    exact hdrained hgone

/-- One worker, and a push between its last look at the queue and the return of `Stop`. -/
def pushBehindDrain : List (Act Nat Nat) := [.push 7 none, .stop, .pop 0, .handle 0 true, .pop 0, .push 8 none, .stopReturns]

def oneWorker : Config where
  workerCount := 1

theorem push_behind_drain_lost : ∃ s, run step (start oneWorker [] false) pushBehindDrain = some s ∧
    s.stopped = true ∧ s.accepted = 2 ∧ s.processed = [0] ∧ s.deadLettered = [] ∧ ¬ s.Accounted := by
  refine ⟨_, rfl, rfl, rfl, rfl, rfl, fun h => ?_⟩
  exact absurd (h 1 (by decide)) (by decide)

/-- The same pushes, both before the worker leaves. -/
theorem accounted_iff_taken_bothBefore :
    ∃ s, run step (start oneWorker [] false) [.push 7 none, .push 8 none, .stop, .pop 0, .handle 0 true, .pop 0,
      .handle 0 true, .pop 0, .stopReturns] = some s ∧ s.stopped = true ∧ (s : State Nat Nat).Accounted := by
  refine ⟨_, rfl, rfl, ?_⟩
  exact ((accounted_iff_taken (show run step (start oneWorker [] false) [.push 7 none, .push 8 none, .stop, .pop 0,
    .handle 0 true, .pop 0, .handle 0 true, .pop 0, .stopReturns] = some _ from rfl)).2.2 rfl).mpr (by decide)

end MemoryQueue
end Cortrix.Memory
