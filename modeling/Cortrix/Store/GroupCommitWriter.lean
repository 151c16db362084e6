import Cortrix.Common.Status
import Cortrix.Lib.Bytes
import Cortrix.Lib.Run

/-!
# GroupCommitWriter: submitters, the flush thread and shutdown

The writer as a machine whose actions are the atomic steps of its threads: a critical section, one call of
the sink, one promise resolved, one notification. Any number of threads submit and shut down; one thread
flushes.

* `Phase` : where the flush thread stands in `FlushLoop`/`FlushBatch`; asleep in `cv_.wait` it is
  `blocked` and only a notification (or a spurious wake-up) makes it test its predicate again;
* `Inv` : handed, in flight and queued records are the accepted ones in order, resolutions follow that
  order, and a sleeping flush thread with work to do is owed a notification; every step keeps it (`inv_step`).
-/

namespace Cortrix.Store.GroupCommitWriter
open Lib

/-- One queued record; `ticket` is the number of the `Submit` call whose promise it holds. -/
structure Pending where
  ticket : Nat
  bytes : Bytes
  deriving DecidableEq

inductive SinkOutcome
  | returned (st : Status)
  | threw
  deriving DecidableEq

def unavailable (msg : String) : Status := ⟨.unavailable, msg⟩

def SinkOutcome.status : SinkOutcome → Status
  | .returned st => st
  | .threw => unavailable "GroupCommitWriter sink threw during flush"

def SinkOutcome.isOk (o : SinkOutcome) : Bool := o.status.isOk

/-- The status of a batch whose sink calls return: `Sync` runs only behind a `WriteBatch` that was Ok. -/
def flushStatus (write sync : Status) : Status := if write.isOk then sync else write

theorem flushStatus_isOk (write sync : Status) :
    (flushStatus write sync).isOk = true ↔ write.isOk = true ∧ sync.isOk = true := by
  unfold flushStatus
  split <;> simp_all

/-- One finished `WriteBatch` + `Sync` cycle; `Sync` is not called when `WriteBatch` was not Ok. -/
structure Flush where
  batch : List Pending
  write : SinkOutcome
  sync : Option SinkOutcome

namespace Flush

/-- The status every waiter of the batch is resolved with. -/
def status (f : Flush) : Status :=
  match f.sync with
  | some o => o.status
  | none => f.write.status

/-- Both calls of the sink returned Ok. -/
def Durable (f : Flush) : Prop := f.write.isOk = true ∧ ∃ o, f.sync = some o ∧ o.isOk = true

end Flush

inductive Phase
  /-- Runnable at the top of `FlushLoop`, about to test the predicate under the lock. -/
  | check
  /-- Asleep in `cv_.wait`. -/
  | blocked
  /-- Asleep in `cv_.wait_for`. -/
  | coalescing
  | writing (batch : List Pending)
  | syncing (batch : List Pending) (write : SinkOutcome)
  /-- Resolving the waiters one by one, `rest` still to do. -/
  | resolving (st : Status) (batch rest : List Pending)
  /-- `ResolvePendingWaiters`, after a promise that was already satisfied threw. -/
  | lastResort (rest : List Pending)
  /-- About to update the counters. -/
  | counting (st : Status) (batch : List Pending)
  | exited
  deriving DecidableEq

/-- Where the `Shutdown` call that set the stop flag stands. -/
inductive Stopper
  | none | notifying | joining | returned
  deriving DecidableEq

structure Stats where
  submitted : Nat := 0
  batches : Nat := 0
  synced : Nat := 0
  failed : Nat := 0

structure State where
  queue : List Pending := []
  shutdown : Bool := false
  stats : Stats := {}
  phase : Phase := .check
  stopper : Stopper := .none
  /-- `Submit` calls that queued their record and have not notified yet. -/
  owed : Nat := 0
  /-- `Submit` calls so far; the next one gets this ticket. -/
  nextTicket : Nat := 0
  /-- The records queued, in queue order. -/
  accepted : List Pending := []
  /-- Promises resolved by `Submit` itself. -/
  rejected : List (Nat × Status) := []
  /-- Promises resolved by the flush thread. -/
  resolved : List (Nat × Status) := []
  handed : List Bytes := []
  flushes : List Flush := []

inductive Act
  | submit (bytes : Bytes)
  | notify
  | shutdownCall
  | shutdownNotify
  | shutdownReturn
  | spuriousWake
  /-- The flush thread takes the lock and tests its predicate. -/
  | check
  /-- `wait_for` returns, its predicate true or its time up. -/
  | coalesced (timedOut : Bool)
  | write (outcome : SinkOutcome)
  | sync (outcome : SinkOutcome)
  | resolve
  | count

/-- `max_batch_`: the constructor clamps to at least one. -/
def clampBatch (maxBatch : Int) : Nat := if maxBatch < 1 then 1 else maxBatch.toNat

/-- The batch is cut from the front of the queue, still under the lock. -/
def take (max : Nat) (s : State) : State :=
  let n := min s.queue.length max
  let batch := s.queue.take n
  { s with queue := s.queue.drop n, phase := if batch.isEmpty then .check else .writing batch }

def wake (s : State) : State := if s.phase = .blocked then { s with phase := .check } else s

/-- The status of the batch is known: every waiter gets it. -/
def startResolving (s : State) (f : Flush) : State :=
  { s with phase := .resolving f.status f.batch f.batch, flushes := s.flushes ++ [f] }

def isResolved (s : State) (ticket : Nat) : Bool :=
  s.rejected.any (·.1 == ticket) || s.resolved.any (·.1 == ticket)

/-- One atomic step; `none` when the action is not enabled. -/
def step (max : Nat) (s : State) : Act → Option State
  | .submit bytes =>
    if s.shutdown then
      some { s with nextTicket := s.nextTicket + 1,
                    rejected := s.rejected ++ [(s.nextTicket, unavailable "GroupCommitWriter is shut down")] }
    else
      let p : Pending := ⟨s.nextTicket, bytes⟩
      some { s with nextTicket := s.nextTicket + 1, queue := s.queue ++ [p], accepted := s.accepted ++ [p],
                    stats := { s.stats with submitted := s.stats.submitted + 1 }, owed := s.owed + 1 }
  | .notify => if 0 < s.owed then some (wake { s with owed := s.owed - 1 }) else none
  | .shutdownCall => if s.shutdown then some s else some { s with shutdown := true, stopper := .notifying }
  | .shutdownNotify => if s.stopper = .notifying then some (wake { s with stopper := .joining }) else none
  | .shutdownReturn =>
    if s.stopper = .joining ∧ s.phase = .exited then some { s with stopper := .returned } else none
  | .spuriousWake => if s.phase = .blocked then some (wake s) else none
  | .check =>
    if s.phase ≠ .check then none
    else if s.queue.isEmpty && !s.shutdown then some { s with phase := .blocked }
    else if s.queue.isEmpty && s.shutdown then some { s with phase := .exited }
    else if s.queue.length < max ∧ s.shutdown = false then some { s with phase := .coalescing }
    else some (take max s)
  | .coalesced timedOut =>
    if s.phase = .coalescing ∧ (timedOut = true ∨ max ≤ s.queue.length ∨ s.shutdown = true) then
      some (take max s)
    else none
  | .write outcome =>
    match s.phase with
    | .writing batch =>
      let s := { s with handed := s.handed ++ batch.map Pending.bytes }
      if outcome.isOk then some { s with phase := .syncing batch outcome }
      else some (startResolving s ⟨batch, outcome, none⟩)
    | _ => none
  | .sync outcome =>
    match s.phase with
    | .syncing batch write => some (startResolving s ⟨batch, write, some outcome⟩)
    | _ => none
  | .resolve =>
    match s.phase with
    | .resolving st batch (p :: rest) =>
      -- `set_value` on a satisfied promise throws into the catch-all of `FlushLoop`
      if isResolved s p.ticket then some { s with phase := .lastResort batch }
      else some { s with resolved := s.resolved ++ [(p.ticket, st)], phase := .resolving st batch rest }
    | .resolving st batch [] => some { s with phase := .counting st batch }
    | .lastResort (p :: rest) =>
      let st := unavailable "GroupCommitWriter flush failed unexpectedly"
      if isResolved s p.ticket then some { s with phase := .lastResort rest }
      else some { s with resolved := s.resolved ++ [(p.ticket, st)], phase := .lastResort rest }
    | .lastResort [] => some { s with phase := .check }
    | _ => none
  | .count =>
    match s.phase with
    | .counting st batch =>
      let stats := { s.stats with batches := s.stats.batches + 1 }
      let stats := if st.isOk then { stats with synced := stats.synced + batch.length }
        else { stats with failed := stats.failed + batch.length }
      some { s with stats, phase := .check }
    | _ => none

/-! ## The invariant -/

namespace Phase

/-- Taken from the queue, its flush not finished. -/
def unflushed : Phase → List Pending
  | .writing batch | .syncing batch _ => batch
  | _ => []

/-- Handed to the sink, its flush not finished. -/
def midFlush : Phase → List Pending
  | .syncing batch _ => batch
  | _ => []

/-- The resolutions the flush thread still has to make for a finished flush. -/
def toResolve : Phase → List (Nat × Status)
  | .resolving st _ rest => rest.map fun p => (p.ticket, st)
  | _ => []

end Phase

def flushed (flushes : List Flush) : List Pending := flushes.flatMap Flush.batch

/-- The resolutions the finished flushes call for. -/
def verdicts (flushes : List Flush) : List (Nat × Status) :=
  flushes.flatMap fun f => f.batch.map fun p => (p.ticket, f.status)

structure Inv (s : State) : Prop where
  /-- Flushed, in flight and queued: the accepted records, in order. -/
  order : flushed s.flushes ++ s.phase.unflushed ++ s.queue = s.accepted
  handed : s.handed = (flushed s.flushes ++ s.phase.midFlush).map Pending.bytes
  verdicts : s.resolved ++ s.phase.toResolve = verdicts s.flushes
  synced : ∀ f ∈ s.flushes, f.sync.isSome = f.write.isOk
  syncing : ∀ batch w, s.phase = .syncing batch w → w.isOk = true
  tickets : (s.accepted.map Pending.ticket ++ s.rejected.map Prod.fst).Perm (List.range s.nextTicket)
  rejected : ∀ d ∈ s.rejected, d.2.isOk = false
  noLastResort : ∀ rest, s.phase ≠ .lastResort rest
  submitted : s.stats.submitted = s.accepted.length
  stopper : s.stopper = .none ↔ s.shutdown = false
  returned : s.stopper = .returned → s.phase = .exited
  exited : s.phase = .exited → s.queue = [] ∧ s.shutdown = true
  coalescing : s.phase = .coalescing → s.queue ≠ []
  batch : ∀ b, (s.phase = .writing b ∨ ∃ w, s.phase = .syncing b w) → b ≠ []
  /-- No wake-up is lost: asleep with something to do, the flush thread is owed a notification. -/
  wakeup : s.phase = .blocked → (s.queue ≠ [] → 0 < s.owed) ∧ (s.shutdown = true → s.stopper = .notifying)

theorem inv_init : Inv {} where
  order := rfl
  handed := rfl
  verdicts := rfl
  synced := by simp
  syncing := by simp
  tickets := List.Perm.refl _
  rejected := by simp
  noLastResort := by simp
  submitted := rfl
  stopper := by simp
  returned := by simp
  exited := by simp
  coalescing := by simp
  batch := by simp
  wakeup := by simp

section
variable {max : Nat} {s s' : State}

theorem inv_submit {bytes : Bytes} (hi : Inv s) (h : step max s (.submit bytes) = some s') : Inv s' := by
  simp only [step] at h
  split at h
  · cases h
    rename_i hdown
    refine { hi with tickets := ?_, rejected := ?_ }
    · simp only [List.map_append, List.map_cons, List.map_nil, List.range_succ, ← List.append_assoc]
      exact hi.tickets.append_right _
    · intro d hd
      rcases List.mem_append.mp hd with hd | hd
      · exact hi.rejected d hd
      · rw [List.mem_singleton.mp hd]
        rfl
  · cases h
    rename_i hdown
    refine { hi with order := ?_, tickets := ?_, submitted := ?_, exited := ?_, coalescing := ?_, wakeup := ?_ }
    · rw [← List.append_assoc, hi.order]
    · simp only [List.map_append, List.map_cons, List.map_nil, List.range_succ, List.append_assoc]
      refine List.Perm.trans (List.Perm.append_left _ List.perm_append_comm) ?_
      rw [← List.append_assoc]
      exact hi.tickets.append_right _
    · simp [hi.submitted]
    · exact fun hx => absurd (hi.exited hx).2 hdown
    · simp
    · exact fun hb => ⟨fun _ => Nat.succ_pos _, (hi.wakeup hb).2⟩

theorem inv_idle (phase : Phase) (hi : Inv s) (hold : s.phase.unflushed = [] ∧ s.phase.midFlush = [] ∧
      s.phase.toResolve = []) (hlive : s.phase ≠ .exited) (hnew : phase = .check ∨
      phase = .blocked ∧ s.queue = [] ∧ s.shutdown = false ∨ phase = .coalescing ∧ s.queue ≠ [] ∨
      phase = .exited ∧ s.queue = [] ∧ s.shutdown = true) : Inv { s with phase } := by
  have hplain : phase.unflushed = [] ∧ phase.midFlush = [] ∧ phase.toResolve = [] := by
    rcases hnew with rfl | ⟨rfl, -⟩ | ⟨rfl, -⟩ | ⟨rfl, -⟩ <;> exact ⟨rfl, rfl, rfl⟩
  have order := hi.order
  have handed := hi.handed
  have verdicts := hi.verdicts
  rw [hold.1, ← hplain.1] at order
  rw [hold.2.1, ← hplain.2.1] at handed
  rw [hold.2.2, ← hplain.2.2] at verdicts
  have hret : s.stopper ≠ .returned := fun h => hlive (hi.returned h)
  rcases hnew with rfl | ⟨rfl, hq, hd⟩ | ⟨rfl, hq⟩ | ⟨rfl, hq, hd⟩
  all_goals
    refine { hi with order, handed, verdicts, syncing := ?_, noLastResort := ?_, returned := ?_, exited := ?_,
                     coalescing := ?_, batch := ?_, wakeup := ?_ } <;> simp_all

/-- Waking the flush thread touches its phase only, and only when it sleeps in `cv_.wait`. -/
theorem inv_wake (hi : Inv s) : Inv (wake s) := by
  unfold wake
  split
  · rename_i hb
    refine inv_idle _ hi ?_ ?_ (Or.inl rfl) <;> simp [hb, Phase.unflushed, Phase.midFlush, Phase.toResolve]
  · exact hi

theorem inv_notify (hi : Inv s) (h : step max s .notify = some s') : Inv s' := by
  simp only [step] at h
  split at h
  · cases h
    by_cases hb : s.phase = .blocked
    · have hw := inv_wake hi
      simp only [wake, if_pos hb] at hw ⊢
      exact { hw with wakeup := by simp }
    · simp only [wake, if_neg hb]
      exact { hi with wakeup := fun h => absurd h hb }
  · cases h

theorem inv_shutdownCall (hi : Inv s) (h : step max s .shutdownCall = some s') : Inv s' := by
  simp only [step] at h
  split at h
  · cases h
    exact hi
  · cases h
    rename_i hdown
    refine { hi with stopper := by simp, returned := by simp, exited := ?_, wakeup := ?_ }
    · exact fun hx => ⟨(hi.exited hx).1, rfl⟩
    · exact fun hb => ⟨(hi.wakeup hb).1, fun _ => rfl⟩

theorem inv_shutdownNotify (hi : Inv s) (h : step max s .shutdownNotify = some s') : Inv s' := by
  simp only [step] at h
  split at h
  · rename_i hst
    cases h
    have hdown : ¬ s.shutdown = false := fun h => by rw [hi.stopper.mpr h] at hst; cases hst
    by_cases hb : s.phase = .blocked
    · have hw := inv_wake hi
      simp only [wake, if_pos hb] at hw ⊢
      exact { hw with stopper := by simpa using hdown, returned := by simp, wakeup := by simp }
    · simp only [wake, if_neg hb]
      exact { hi with stopper := by simpa using hdown, returned := by simp, wakeup := fun h => absurd h hb }
  · cases h

theorem inv_shutdownReturn (hi : Inv s) (h : step max s .shutdownReturn = some s') : Inv s' := by
  simp only [step] at h
  split at h
  · rename_i hst
    cases h
    have hdown : ¬ s.shutdown = false := by simp [(hi.exited hst.2).2]
    exact { hi with
      stopper := by simpa using hdown
      returned := fun _ => hst.2
      wakeup := fun h => by
        rw [hst.2] at h
        cases h }
  · cases h

theorem take_isEmpty {queue : List Pending} (hmax : 0 < max) (hq : queue ≠ []) :
    (queue.take (min queue.length max)).isEmpty = false := by
  rw [List.isEmpty_eq_false_iff]
  intro h
  have hlen := congrArg List.length h
  have hpos := List.length_pos_of_ne_nil hq
  rw [List.length_take, List.length_nil] at hlen
  omega

theorem inv_take (hi : Inv s) (hphase : s.phase = .check ∨ s.phase = .coalescing) (hmax : 0 < max)
    (hq : s.queue ≠ []) : Inv (take max s) := by
  have hbatch := take_isEmpty hmax hq
  have hplain : s.phase.unflushed = [] ∧ s.phase.midFlush = [] ∧ s.phase.toResolve = [] := by
    rcases hphase with h | h <;> rw [h] <;> exact ⟨rfl, rfl, rfl⟩
  have hret : s.stopper ≠ .returned := fun h => by
    have := hi.returned h
    rcases hphase with h | h <;> simp_all
  have order := hi.order
  have handed := hi.handed
  have verdicts := hi.verdicts
  rw [hplain.1] at order
  rw [hplain.2.1] at handed
  rw [hplain.2.2] at verdicts
  unfold take
  simp only [hbatch, Bool.false_eq_true, if_false]
  refine { hi with
    order := ?_, handed, verdicts, syncing := by simp, noLastResort := by simp,
    returned := fun h => absurd h hret, exited := by simp, coalescing := by simp, batch := ?_,
    wakeup := by simp }
  · rw [← order, Phase.unflushed, List.append_assoc, List.take_append_drop, List.append_nil]
  · rintro b (hb | ⟨w, hb⟩)
    · cases hb
      exact List.isEmpty_eq_false_iff.mp hbatch
    · cases hb

theorem inv_check (hi : Inv s) (hmax : 0 < max) (h : step max s .check = some s') : Inv s' := by
  simp only [step] at h
  split at h
  · cases h
  rename_i hphase
  have hphase : s.phase = .check := not_not.mp hphase
  have hplain : s.phase.unflushed = [] ∧ s.phase.midFlush = [] ∧ s.phase.toResolve = [] := by
    rw [hphase]
    exact ⟨rfl, rfl, rfl⟩
  have hlive : s.phase ≠ .exited := by simp [hphase]
  by_cases hq : s.queue = []
  · cases hd : s.shutdown with
    | false =>
      rw [if_pos (by simp [hq, hd])] at h
      cases h
      exact inv_idle _ hi hplain hlive (Or.inr (Or.inl ⟨rfl, hq, hd⟩))
    | true =>
      rw [if_neg (by simp [hd]), if_pos (by simp [hq, hd])] at h
      cases h
      exact inv_idle _ hi hplain hlive (Or.inr (Or.inr (Or.inr ⟨rfl, hq, hd⟩)))
  · have hne : s.queue.isEmpty = false := List.isEmpty_eq_false_iff.mpr hq
    simp only [hne, Bool.false_and, Bool.false_eq_true, if_false] at h
    split at h
    · cases h
      exact inv_idle _ hi hplain hlive (Or.inr (Or.inr (Or.inl ⟨rfl, hq⟩)))
    · cases h
      exact inv_take hi (Or.inl hphase) hmax hq

theorem inv_coalesced {timedOut : Bool} (hi : Inv s) (hmax : 0 < max)
    (h : step max s (.coalesced timedOut) = some s') : Inv s' := by
  simp only [step] at h
  split at h
  · rename_i hphase
    cases h
    exact inv_take hi (Or.inr hphase.1) hmax (hi.coalescing hphase.1)
  · cases h

theorem flushed_append (fs : List Flush) (f : Flush) : flushed (fs ++ [f]) = flushed fs ++ f.batch := by
  simp [flushed]

theorem verdicts_append (fs : List Flush) (f : Flush) :
    verdicts (fs ++ [f]) = verdicts fs ++ f.batch.map fun p => (p.ticket, f.status) := by
  simp [verdicts]

theorem inv_startResolving {f : Flush} (hi : Inv s) (hun : s.phase.unflushed = f.batch)
    (hmid : s.phase.midFlush = f.batch) (hres : s.phase.toResolve = []) (hlive : s.phase ≠ .exited)
    (hsync : f.sync.isSome = f.write.isOk) : Inv (startResolving s f) := by
  have order := hi.order
  have handed := hi.handed
  have verdicts := hi.verdicts
  rw [hun] at order
  rw [hmid] at handed
  rw [hres, List.append_nil] at verdicts
  unfold startResolving
  refine { hi with
    order := ?_, handed := ?_, verdicts := ?_, synced := ?_, syncing := by simp, noLastResort := by simp,
    returned := fun h => absurd (hi.returned h) hlive, exited := by simp, coalescing := by simp,
    batch := by simp, wakeup := by simp }
  · simpa [flushed_append, Phase.unflushed] using order
  · simpa [flushed_append, Phase.midFlush] using handed
  · simp only [Phase.toResolve, verdicts_append, verdicts]
  · intro g hg
    rcases List.mem_append.mp hg with hg | hg
    · exact hi.synced g hg
    · rw [List.mem_singleton.mp hg]
      exact hsync

theorem inv_write {outcome : SinkOutcome} (hi : Inv s) (h : step max s (.write outcome) = some s') : Inv s' := by
  simp only [step] at h
  split at h
  · rename_i batch hphase
    have order := hi.order
    have handed := hi.handed
    have verdicts := hi.verdicts
    rw [hphase] at order handed verdicts
    -- the records are handed over whatever the sink then says
    have hmid : Inv { s with
        handed := s.handed ++ batch.map Pending.bytes, phase := .syncing batch (.returned Status.okStatus) } := by
      refine { hi with
        order, handed := ?_, verdicts, syncing := ?_, noLastResort := by simp, returned := fun h => ?_,
        exited := by simp, coalescing := by simp, batch := ?_, wakeup := by simp }
      · simpa [Phase.midFlush] using handed
      · intro b w hw
        cases hw
        rfl
      · have := hi.returned h
        rw [hphase] at this
        cases this
      · rintro b (hb | ⟨w, hb⟩)
        · cases hb
        · cases hb
          exact hi.batch batch (Or.inl hphase)
    split at h
    · rename_i hok
      cases h
      refine { hmid with syncing := ?_, noLastResort := by simp, returned := fun h => ?_, exited := by simp,
                         coalescing := by simp, batch := ?_, wakeup := by simp }
      · intro b w hw
        cases hw
        exact hok
      · cases hmid.returned h
      · rintro b (hb | ⟨w, hb⟩)
        · cases hb
        · cases hb
          exact hi.batch batch (Or.inl hphase)
    · rename_i hok
      cases h
      have hdone := inv_startResolving (f := ⟨batch, outcome, none⟩) hmid rfl rfl rfl (by simp) (by simpa using hok)
      exact hdone
  · cases h

theorem inv_sync {outcome : SinkOutcome} (hi : Inv s) (h : step max s (.sync outcome) = some s') : Inv s' := by
  simp only [step] at h
  split at h
  · rename_i batch write hphase
    cases h
    have hok := hi.syncing _ _ hphase
    refine inv_startResolving (f := ⟨batch, write, some outcome⟩) hi ?_ ?_ ?_ ?_ ?_
    · rw [hphase]
      rfl
    · rw [hphase]
      rfl
    · rw [hphase]
      rfl
    · simp [hphase]
    · simp [hok]
  · cases h

/-- The tickets accepted and not resolved yet, in the order they will be. -/
def waiting (s : State) : List Nat :=
  s.phase.toResolve.map Prod.fst ++ s.phase.unflushed.map Pending.ticket ++ s.queue.map Pending.ticket

theorem accepted_tickets (hi : Inv s) :
    s.accepted.map Pending.ticket = s.resolved.map Prod.fst ++ waiting s := by
  have hverdicts : (s.resolved ++ s.phase.toResolve).map Prod.fst = (flushed s.flushes).map Pending.ticket := by
    rw [hi.verdicts]
    simp [verdicts, flushed, List.map_flatMap, Function.comp_def]
  rw [← hi.order, List.map_append, List.map_append, ← hverdicts, List.map_append, waiting]
  simp only [List.append_assoc]

theorem tickets_nodup (hi : Inv s) : (s.resolved.map Prod.fst ++ waiting s ++ s.rejected.map Prod.fst).Nodup := by
  rw [← accepted_tickets hi]
  exact hi.tickets.nodup_iff.mpr List.nodup_range

theorem not_isResolved {st : Status} {batch rest : List Pending} {p : Pending} (hi : Inv s)
    (hphase : s.phase = .resolving st batch (p :: rest)) : isResolved s p.ticket = false := by
  have hmem : p.ticket ∈ waiting s := by simp [waiting, hphase, Phase.toResolve]
  obtain ⟨hleft, -, hdisj⟩ := List.nodup_append.mp (tickets_nodup hi)
  obtain ⟨-, -, hdisj'⟩ := List.nodup_append.mp hleft
  have hres : p.ticket ∉ s.resolved.map Prod.fst := fun hm => hdisj' _ hm _ hmem rfl
  have hrej : p.ticket ∉ s.rejected.map Prod.fst := fun hm =>
    hdisj _ (List.mem_append_right _ hmem) _ hm rfl
  unfold isResolved
  rw [Bool.or_eq_false_iff, List.any_eq_false, List.any_eq_false]
  exact ⟨fun d hd h => hrej (List.mem_map.mpr ⟨d, hd, by simpa using h⟩),
    fun d hd h => hres (List.mem_map.mpr ⟨d, hd, by simpa using h⟩)⟩

theorem inv_resolve (hi : Inv s) (h : step max s .resolve = some s') : Inv s' := by
  have order := hi.order
  have handed := hi.handed
  have verdicts := hi.verdicts
  simp only [step] at h
  split at h
  · rename_i st batch p rest hphase
    rw [not_isResolved hi hphase] at h
    cases h
    rw [hphase] at order handed verdicts
    refine { hi with
      order, handed, verdicts := ?_, syncing := by simp, noLastResort := by simp, returned := fun h => ?_,
      exited := by simp, coalescing := by simp, batch := by simp, wakeup := by simp }
    · simpa [Phase.toResolve] using verdicts
    · have := hi.returned h
      rw [hphase] at this
      cases this
  · rename_i st batch hphase
    cases h
    rw [hphase] at order handed verdicts
    refine { hi with
      order, handed, verdicts, syncing := by simp, noLastResort := by simp, returned := fun h => ?_,
      exited := by simp, coalescing := by simp, batch := by simp, wakeup := by simp }
    have := hi.returned h
    rw [hphase] at this
    cases this
  · rename_i hphase
    exact absurd hphase (hi.noLastResort _)
  · rename_i hphase
    exact absurd hphase (hi.noLastResort _)
  · cases h

theorem inv_count (hi : Inv s) (h : step max s .count = some s') : Inv s' := by
  simp only [step] at h
  split at h
  · rename_i st batch hphase
    cases h
    have hidle := inv_idle .check hi (by rw [hphase]; exact ⟨rfl, rfl, rfl⟩) (by simp [hphase])
      (Or.inl rfl)
    refine { hidle with submitted := ?_ }
    have := hi.submitted
    split <;> exact this
  · cases h

theorem inv_step {a : Act} (hmax : 0 < max) (hi : Inv s) (h : step max s a = some s') : Inv s' := by
  cases a with
  | submit bytes => exact inv_submit hi h
  | notify => exact inv_notify hi h
  | shutdownCall => exact inv_shutdownCall hi h
  | shutdownNotify => exact inv_shutdownNotify hi h
  | shutdownReturn => exact inv_shutdownReturn hi h
  | spuriousWake =>
    simp only [step] at h
    split at h
    · cases h
      exact inv_wake hi
    · cases h
  | check => exact inv_check hi hmax h
  | coalesced timedOut => exact inv_coalesced hi hmax h
  | write outcome => exact inv_write hi h
  | sync outcome => exact inv_sync hi h
  | resolve => exact inv_resolve hi h
  | count => exact inv_count hi h

end

end Cortrix.Store.GroupCommitWriter
