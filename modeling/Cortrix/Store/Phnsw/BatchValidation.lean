import Cortrix.Store.GroupCommitDelivery
import Cortrix.Store.Phnsw.WalEntry

/-!
# AddPoints and its null vectors

`AddPoints` submits the records of a batch one by one and looks at each vector only when its turn comes.

* `rejected_leaves_nothing_iff` : when a batch rejected as invalid leaves nothing behind.
-/

namespace Cortrix.Store.GroupCommitWriter
open Lib

variable {max : Nat} {s s' : State} {ticket : Nat}

/-- The record is queued or in the hands of the flush thread, its batch not failed. -/
def OnItsWay (ticket : Nat) (s : State) : Prop :=
  ticket ∈ s.queue.map Pending.ticket ∨
    (∃ b, s.phase = .writing b ∧ ticket ∈ b.map Pending.ticket) ∨
    ∃ b w, s.phase = .syncing b w ∧ ticket ∈ b.map Pending.ticket

/-- The sink was called with the record, whatever came of it. -/
def Handed (ticket : Nat) (s : State) : Prop :=
  (∃ f ∈ s.flushes, ticket ∈ f.batch.map Pending.ticket) ∨ ∃ b w, s.phase = .syncing b w ∧ ticket ∈ b.map Pending.ticket

/-- The batch of the record went through the sink: it is in the log and applied. -/
def Committed (ticket : Nat) (s : State) : Prop :=
  ∃ f ∈ s.flushes, ticket ∈ f.batch.map Pending.ticket ∧ f.Durable

theorem OnItsWay.waiting (h : OnItsWay ticket s) : ticket ∈ waiting s := by
  unfold GroupCommitWriter.waiting
  rcases h with h | ⟨b, hphase, h⟩ | ⟨b, w, hphase, h⟩
  · simp only [List.mem_append]
    exact .inr h
  · simp only [hphase, Phase.unflushed, List.mem_append]
    exact .inl (.inr h)
  · simp only [hphase, Phase.unflushed, List.mem_append]
    exact .inl (.inr h)

theorem onItsWay_take (hmax : 0 < max) (h : ticket ∈ s.queue.map Pending.ticket) : OnItsWay ticket (take max s) := by
  have hq : s.queue ≠ [] := by
    rintro hq
    rw [hq] at h
    cases h
  unfold take
  simp only [take_isEmpty hmax hq, Bool.false_eq_true, if_false]
  rw [← List.take_append_drop (min s.queue.length max) s.queue, List.map_append] at h
  rcases List.mem_append.mp h with h | h
  · exact .inr (.inl ⟨_, rfl, h⟩)
  · exact .inl h

theorem Committed.handed (h : Committed ticket s) : Handed ticket s := by
  obtain ⟨f, hf, hticket, -⟩ := h
  exact .inl ⟨f, hf, hticket⟩

theorem Handed.accepted (hi : Inv s) (h : Handed ticket s) : ticket ∈ s.accepted.map Pending.ticket := by
  rw [← hi.order, List.map_append, List.map_append]
  rcases h with ⟨f, hf, h⟩ | ⟨b, w, hphase, h⟩
  · obtain ⟨p, hp, rfl⟩ := List.mem_map.mp h
    exact List.mem_append_left _ (List.mem_append_left _ (List.mem_map_of_mem (List.mem_flatMap.mpr ⟨f, hf, hp⟩)))
  · rw [hphase]
    exact List.mem_append_left _ (List.mem_append_right _ h)

/-- A call of the sink in this step goes well. -/
def SinkWorks (a : Act) : Prop := ∀ o, a = .write o ∨ a = .sync o → o = .returned Status.okStatus

/-- While the sink works, some step brings the record closer to its commit. -/
theorem OnItsWay.progress (hmax : 0 < max) (hi : Inv s) (h : OnItsWay ticket s) :
    ∃ a s', SinkWorks a ∧ step max s a = some s' ∧
      (Committed ticket s' ∨ OnItsWay ticket s' ∧ distance ticket s' < distance ticket s) := by
  -- a step of the flush thread that leaves the record on its way brings it closer
  have hflush : ∀ {a : Act} {s' : State}, SinkWorks a → Meets .flushThread a → step max s a = some s' →
      OnItsWay ticket s' → ∃ a s', SinkWorks a ∧ step max s a = some s' ∧
        (Committed ticket s' ∨ OnItsWay ticket s' ∧ distance ticket s' < distance ticket s) :=
    fun hworks ha hstep h' =>
      ⟨_, _, hworks, hstep, .inr ⟨h', distance_flushThread hmax hi h.waiting h'.waiting ha hstep⟩⟩
  have hok : (SinkOutcome.returned Status.okStatus).isOk = true := rfl
  have hqueue : (∀ b, s.phase ≠ .writing b) → (∀ b w, s.phase ≠ .syncing b w) →
      ticket ∈ s.queue.map Pending.ticket ∧ s.queue ≠ [] := by
    intro hnw hns
    have hmem : ticket ∈ s.queue.map Pending.ticket :=
      h.resolve_right (by rintro (⟨b, hb, -⟩ | ⟨b, w, hb, -⟩); exacts [hnw b hb, hns b w hb])
    refine ⟨hmem, fun hq => ?_⟩
    rw [hq] at hmem
    cases hmem
  cases hphase : s.phase with
  | check =>
    obtain ⟨hmem, hq⟩ := hqueue (by simp [hphase]) (by simp [hphase])
    have hne : s.queue.isEmpty = false := List.isEmpty_eq_false_iff.mpr hq
    by_cases hroom : s.queue.length < max ∧ s.shutdown = false
    · have hstep : step max s .check = some { s with phase := .coalescing } := by
        simp only [step, hphase, hne, ne_eq, not_true_eq_false, if_false, Bool.false_and, Bool.false_eq_true,
          if_pos hroom]
      exact hflush (by simp [SinkWorks]) (.inl rfl) hstep (.inl hmem)
    · have hstep : step max s .check = some (take max s) := by
        simp only [step, hphase, hne, ne_eq, not_true_eq_false, if_false, Bool.false_and, Bool.false_eq_true,
          if_neg hroom]
      exact hflush (by simp [SinkWorks]) (.inl rfl) hstep (onItsWay_take hmax hmem)
  | blocked =>
    obtain ⟨hmem, hq⟩ := hqueue (by simp [hphase]) (by simp [hphase])
    have howed := (hi.wakeup hphase).1 hq
    have hstep : step max s .notify = some (wake { s with owed := s.owed - 1 }) := if_pos howed
    have h' : OnItsWay ticket (wake { s with owed := s.owed - 1 }) := by
      unfold wake
      rw [if_pos hphase]
      exact .inl hmem
    refine ⟨_, _, by simp [SinkWorks], hstep, .inr ⟨h', ?_⟩⟩
    exact (distance_step (i := .submitter) hmax hi h.waiting h'.waiting ⟨hphase, howed⟩ hstep).resolve_right
      fun hx => hx.2.2 rfl
  | coalescing =>
    obtain ⟨hmem, -⟩ := hqueue (by simp [hphase]) (by simp [hphase])
    exact hflush (by simp [SinkWorks]) (.inr (.inl ⟨true, rfl⟩)) (if_pos ⟨hphase, .inl rfl⟩) (onItsWay_take hmax hmem)
  | writing b =>
    have hstep : step max s (.write (.returned Status.okStatus)) =
        some { s with handed := s.handed ++ b.map Pending.bytes,
                      phase := .syncing b (.returned Status.okStatus) } := by
      simp only [step, hphase, hok, if_true]
    refine hflush (by simp [SinkWorks]) (.inr (.inr (.inl ⟨_, rfl⟩))) hstep ?_
    rcases h with h | ⟨b', hb, h⟩ | ⟨b', w, hb, -⟩
    · exact .inl h
    · rw [hphase] at hb
      cases hb
      exact .inr (.inr ⟨_, _, rfl, h⟩)
    · rw [hphase] at hb
      cases hb
  | syncing b w =>
    have hstep : step max s (.sync (.returned Status.okStatus)) =
        some (startResolving s ⟨b, w, some (.returned Status.okStatus)⟩) := by simp only [step, hphase]
    rcases h with h | ⟨b', hb, -⟩ | ⟨b', w', hb, h⟩
    · exact hflush (by simp [SinkWorks]) (.inr (.inr (.inr (.inl ⟨_, rfl⟩)))) hstep (.inl h)
    · rw [hphase] at hb
      cases hb
    · rw [hphase] at hb
      cases hb
      refine ⟨_, _, by simp [SinkWorks], hstep, .inl ⟨_, List.mem_append_right _ (List.mem_singleton.mpr rfl), h, ?_⟩⟩
      exact ⟨hi.syncing b w hphase, _, rfl, rfl⟩
  | resolving st b rest =>
    obtain ⟨hmem, -⟩ := hqueue (by simp [hphase]) (by simp [hphase])
    cases rest with
    | nil =>
      have hstep : step max s .resolve = some { s with phase := .counting st b } := by simp only [step, hphase]
      exact hflush (by simp [SinkWorks]) (.inr (.inr (.inr (.inr (.inl rfl))))) hstep (.inl hmem)
    | cons p rest =>
      have hstep : step max s .resolve =
          some { s with resolved := s.resolved ++ [(p.ticket, st)], phase := .resolving st b rest } := by
        simp only [step, hphase, not_isResolved hi hphase, Bool.false_eq_true, if_false]
      exact hflush (by simp [SinkWorks]) (.inr (.inr (.inr (.inr (.inl rfl))))) hstep (.inl hmem)
  | lastResort rest => exact absurd hphase (hi.noLastResort rest)
  | counting st b =>
    obtain ⟨hmem, -⟩ := hqueue (by simp [hphase]) (by simp [hphase])
    have hstep : ∃ stats, step max s .count = some { s with stats, phase := .check } :=
      ⟨_, by simp only [step, hphase]; rfl⟩
    obtain ⟨stats, hstep⟩ := hstep
    exact hflush (by simp [SinkWorks]) (.inr (.inr (.inr (.inr (.inr rfl))))) hstep (.inl hmem)
  | exited =>
    obtain ⟨-, hq⟩ := hqueue (by simp [hphase]) (by simp [hphase])
    exact absurd (hi.exited hphase).1 hq

/-- With a sink that works, the threads can bring the record into the log. -/
theorem OnItsWay.commits (hmax : 0 < max) (hi : Inv s) (h : OnItsWay ticket s) :
    ∃ acts s', (∀ a ∈ acts, SinkWorks a) ∧ run (step max) s acts = some s' ∧ Committed ticket s' := by
  induction hn : distance ticket s using Nat.strong_induction_on generalizing s with
  | _ n ih =>
    obtain ⟨a, s₁, hworks, hstep, hcommitted | ⟨h₁, hlt⟩⟩ := h.progress hmax hi
    · exact ⟨[a], s₁, List.forall_mem_singleton.mpr hworks, run_cons.mpr ⟨s₁, hstep, rfl⟩, hcommitted⟩
    · obtain ⟨acts, s', hall, hrun, hcommitted⟩ := ih _ (hn ▸ hlt) (inv_step hmax hi hstep) h₁ rfl
      exact ⟨a :: acts, s', List.forall_mem_cons.mpr ⟨hworks, hall⟩, run_cons.mpr ⟨s₁, hstep, hrun⟩, hcommitted⟩

end Cortrix.Store.GroupCommitWriter

namespace Cortrix.Store.Phnsw.AddPoints
open Lib
open GroupCommitWriter (Committed OnItsWay clampBatch)

/-! ## The call -/

/-- An element of the batch; the vector may be a null pointer. -/
structure Point where
  vec : Option (List UInt32)
  blockId : UInt64

def nullVector : Status := ⟨.invalidArgument, "PHnsw::AddPoints: null vector in batch"⟩

def notReady : Status := phnswStatus .unavailable PhnswErrors.kNotReady "PHnsw::AddPoints: index not ready"

inductive Pc
  | loop (rest : List Point)
  | waiting
  | returned (st : Status)

/-- The committer and the call; `futures` are the tickets of the records it submitted. -/
structure State where
  committer : GroupCommitWriter.State
  pc : Pc
  futures : List Nat

/-- The call up to its loop. -/
def enter (ready : Bool) (points : List Point) (c : GroupCommitWriter.State) : State :=
  if ready = false then ⟨c, .returned notReady, []⟩
  else if points.isEmpty then ⟨c, .returned Status.okStatus, []⟩
  else ⟨c, .loop points, []⟩

/-- The status the call returns once every future is there: the first error. -/
def firstErr (sts : List Status) : Status := (sts.find? fun st => !st.isOk).getD Status.okStatus

/-- What the sink of the index answers: `WriteBatch` keeps the batch and says Ok, `Sync` fails only as the log does (the
records serialised here decode). -/
def sinkSays : GroupCommitWriter.Act → Bool
  | .write outcome => outcome == .returned Status.okStatus
  | .sync outcome => outcome.isOk || outcome.status.code == .unavailable
  | _ => true

/-- The committer over the sink of the index. -/
def committerStep (max : Nat) (c : GroupCommitWriter.State) (a : GroupCommitWriter.Act) :
    Option GroupCommitWriter.State :=
  if sinkSays a then GroupCommitWriter.step max c a else none

inductive Act
  | element (now : Int64)
  | collect
  /-- A step of the committer's thread or of another caller. -/
  | other (a : GroupCommitWriter.Act)

def step (max : Nat) (s : State) : Act → Option State
  | .element now =>
    match s.pc with
    | .loop [] => some { s with pc := .waiting }
    | .loop (⟨none, _⟩ :: _) => some { s with pc := .returned nullVector }
    | .loop (⟨some vec, blockId⟩ :: rest) =>
      (committerStep max s.committer (.submit (WalEntry.serializeInsert blockId vec (-1) now))).map fun c =>
        ⟨c, .loop rest, s.futures ++ [s.committer.nextTicket]⟩
    | _ => none
  | .collect =>
    match s.pc with
    | .waiting =>
      let sts := s.futures.map fun t => (GroupCommitWriter.resolutions s.committer t).head?
      if sts.all Option.isSome then some { s with pc := .returned (firstErr (sts.filterMap id)) } else none
    | _ => none
  | .other a => (committerStep max s.committer a).map fun c => { s with committer := c }

/-- From here on, whatever the threads do: once the call has returned InvalidArgument, no record it submitted is `P`. -/
def RejectedNever (P : Nat → GroupCommitWriter.State → Prop) (max : Nat) (s : State) : Prop :=
  ∀ acts s' st, run (step max) s acts = some s' → s'.pc = .returned st → st.code = .invalidArgument →
    ∀ ticket ∈ s'.futures, ¬ P ticket s'.committer

variable {max : Nat} {s s' : State} {c c' : GroupCommitWriter.State}

theorem inv_committerStep {a : GroupCommitWriter.Act} (hmax : 0 < max) (hi : GroupCommitWriter.Inv c)
    (h : committerStep max c a = some c') : GroupCommitWriter.Inv c' := by
  unfold committerStep at h
  split at h
  · exact GroupCommitWriter.inv_step hmax hi h
  · cases h

theorem step_cases {a : Act} (h : step max s a = some s') :
    (s.pc = .loop [] ∧ s' = { s with pc := .waiting }) ∨
    (∃ id rest, s.pc = .loop (⟨none, id⟩ :: rest) ∧ s' = { s with pc := .returned nullVector }) ∨
    (∃ vec id rest bytes c', s.pc = .loop (⟨some vec, id⟩ :: rest) ∧
      committerStep max s.committer (.submit bytes) = some c' ∧
      s' = ⟨c', .loop rest, s.futures ++ [s.committer.nextTicket]⟩) ∨
    (∃ sts, s.pc = .waiting ∧
      (∀ st ∈ sts, ∃ t ∈ s.futures, st ∈ GroupCommitWriter.resolutions s.committer t) ∧
      s' = { s with pc := .returned (firstErr sts) }) ∨
    ∃ a c', committerStep max s.committer a = some c' ∧ s' = { s with committer := c' } := by
  cases a with
  | element now =>
    simp only [step] at h
    split at h
    · cases h
      exact .inl ⟨‹_›, rfl⟩
    · cases h
      exact .inr (.inl ⟨_, _, ‹_›, rfl⟩)
    · obtain ⟨c', hc, rfl⟩ := Option.map_eq_some_iff.mp h
      exact .inr (.inr (.inl ⟨_, _, _, _, c', ‹_›, hc, rfl⟩))
    · cases h
  | collect =>
    simp only [step] at h
    split at h
    · split at h
      · cases h
        refine .inr (.inr (.inr (.inl ⟨_, ‹_›, fun st hst => ?_, rfl⟩)))
        obtain ⟨o, ho, rfl⟩ := List.mem_filterMap.mp hst
        obtain ⟨t, ht, hhead⟩ := List.mem_map.mp ho
        exact ⟨t, ht, List.mem_of_mem_head? hhead⟩
      · cases h
    · cases h
  | other a =>
    obtain ⟨c', hc, rfl⟩ := Option.map_eq_some_iff.mp h
    exact .inr (.inr (.inr (.inr ⟨a, c', hc, rfl⟩)))

theorem inv_step {a : Act} (hmax : 0 < max) (hi : GroupCommitWriter.Inv s.committer) (h : step max s a = some s') :
    GroupCommitWriter.Inv s'.committer := by
  obtain ⟨-, rfl⟩ | ⟨_, _, -, rfl⟩ | ⟨_, _, _, _, c', -, hc, rfl⟩ | ⟨_, -, -, rfl⟩ | ⟨_, c', hc, rfl⟩ := step_cases h
  · exact hi
  · exact hi
  · exact inv_committerStep hmax hi hc
  · exact hi
  · exact inv_committerStep hmax hi hc

/-! ## Batches that leave nothing -/

/-- The call has nothing of its own in the committer and will put nothing there. -/
def Untouched (s : State) : Prop :=
  s.futures = [] ∧ ((∃ st, s.pc = .returned st) ∨ ∃ id rest, s.pc = .loop (⟨none, id⟩ :: rest))

theorem untouched_step {a : Act} (hs : Untouched s) (h : step max s a = some s') : Untouched s' := by
  obtain ⟨hfutures, hpc⟩ := hs
  obtain ⟨hloop, rfl⟩ | ⟨_, _, -, rfl⟩ | ⟨_, _, _, _, c', hloop, -, rfl⟩ | ⟨_, hwait, -, rfl⟩ | ⟨_, c', -, rfl⟩ :=
    step_cases h
  · rw [hloop] at hpc
    simp at hpc
  · exact ⟨hfutures, .inl ⟨_, rfl⟩⟩
  · rw [hloop] at hpc
    simp at hpc
  · rw [hwait] at hpc
    simp at hpc
  · exact ⟨hfutures, hpc⟩

/-- The statuses the committer has given out are none of InvalidArgument. -/
def Clean (c : GroupCommitWriter.State) : Prop :=
  (∀ f ∈ c.flushes, f.status.code ≠ .invalidArgument) ∧ ∀ d ∈ c.rejected, d.2.code ≠ .invalidArgument

theorem clean_committerStep {a : GroupCommitWriter.Act} (hc : Clean c) (h : committerStep max c a = some c') :
    Clean c' := by
  unfold committerStep at h
  split at h
  case isFalse => cases h
  rename_i hsays
  obtain ⟨hflushes, hrejected⟩ := hc
  cases a with
  | submit bytes =>
    simp only [GroupCommitWriter.step] at h
    split at h
    · cases h
      refine ⟨hflushes, fun d hd => ?_⟩
      rcases List.mem_append.mp hd with hd | hd
      · exact hrejected d hd
      · rw [List.mem_singleton.mp hd]
        simp [GroupCommitWriter.unavailable]
    · cases h
      exact ⟨hflushes, hrejected⟩
  | sync outcome =>
    simp only [GroupCommitWriter.step] at h
    split at h
    · cases h
      refine ⟨fun f hf => ?_, hrejected⟩
      rcases List.mem_append.mp hf with hf | hf
      · exact hflushes f hf
      · rw [List.mem_singleton.mp hf]
        simp only [sinkSays, GroupCommitWriter.SinkOutcome.isOk, Status.isOk, Bool.or_eq_true, beq_iff_eq] at hsays
        simp only [GroupCommitWriter.Flush.status]
        rcases hsays with hok | hdown
        · simp [hok]
        · simp [hdown]
    · cases h
  | write outcome =>
    have hok : outcome = .returned Status.okStatus := by simpa [sinkSays] using hsays
    subst hok
    simp only [GroupCommitWriter.step] at h
    split at h
    · have hwritten : (GroupCommitWriter.SinkOutcome.returned Status.okStatus).isOk = true := rfl
      rw [if_pos hwritten] at h
      cases h
      exact ⟨hflushes, hrejected⟩
    · cases h
  | _ =>
    have hsame : c'.flushes = c.flushes ∧ c'.rejected = c.rejected := by
      simp only [GroupCommitWriter.step, GroupCommitWriter.wake, GroupCommitWriter.take] at h
      repeat' split at h
      all_goals first
        | (cases h; done)
        | (cases h; exact ⟨rfl, rfl⟩)
    rw [Clean, hsame.1, hsame.2]
    exact ⟨hflushes, hrejected⟩

theorem clean_resolutions (hi : GroupCommitWriter.Inv c) (hc : Clean c) {ticket : Nat} {st : Status}
    (h : st ∈ GroupCommitWriter.resolutions c ticket) : st.code ≠ .invalidArgument := by
  rcases GroupCommitWriter.mem_resolutions.mp h with hrej | hres
  · exact hc.2 _ hrej
  · obtain ⟨f, hf, -, rfl⟩ := GroupCommitWriter.exists_flush hi hres
    exact hc.1 f hf

theorem firstErr_clean {sts : List Status} (h : ∀ st ∈ sts, st.code ≠ .invalidArgument) :
    (firstErr sts).code ≠ .invalidArgument := by
  unfold firstErr
  cases hfind : sts.find? fun st => !st.isOk with
  | none => simp [Status.okStatus]
  | some st => exact h st (List.mem_of_find?_eq_some hfind)

/-- The call has met no null vector and will meet none. -/
structure NoNull (s : State) : Prop where
  inv : GroupCommitWriter.Inv s.committer
  clean : Clean s.committer
  rest : ∀ rest, s.pc = .loop rest → ∀ p ∈ rest, p.vec ≠ none
  returned : ∀ st, s.pc = .returned st → st.code ≠ .invalidArgument

theorem noNull_step {a : Act} (hmax : 0 < max) (hs : NoNull s) (h : step max s a = some s') : NoNull s' := by
  have hinv := inv_step hmax hs.inv h
  obtain ⟨-, rfl⟩ | ⟨_, _, hpc, rfl⟩ | ⟨_, _, _, _, c', hpc, hc, rfl⟩ | ⟨sts, -, hsts, rfl⟩ | ⟨_, c', hc, rfl⟩ :=
    step_cases h
  · exact { hs with rest := by simp, returned := by simp }
  · exact absurd rfl (hs.rest _ hpc _ List.mem_cons_self)
  · refine ⟨hinv, clean_committerStep hs.clean hc, fun rest' hrest p hp => ?_, by simp⟩
    cases hrest
    exact hs.rest _ hpc p (List.mem_cons_of_mem _ hp)
  · refine ⟨hinv, hs.clean, by simp, fun st hst => ?_⟩
    cases hst
    refine firstErr_clean fun st hst => ?_
    obtain ⟨t, -, ht⟩ := hsts st hst
    exact clean_resolutions hs.inv hs.clean ht
  · exact ⟨hinv, clean_committerStep hs.clean hc, hs.rest, hs.returned⟩

/-- The committer is shut down and turned away every record of the call. -/
structure TurnedAway (s : State) : Prop where
  inv : GroupCommitWriter.Inv s.committer
  shutdown : s.committer.shutdown = true
  futures : ∀ ticket ∈ s.futures, ticket ∈ s.committer.rejected.map Prod.fst

theorem shutdown_committerStep {a : GroupCommitWriter.Act} (hdown : c.shutdown = true)
    (h : committerStep max c a = some c') : c'.shutdown = true ∧ c.rejected <+: c'.rejected := by
  unfold committerStep at h
  split at h
  case isFalse => cases h
  cases a with
  | submit bytes =>
    simp only [GroupCommitWriter.step, hdown, if_true] at h
    cases h
    exact ⟨rfl, List.prefix_append _ _⟩
  | shutdownCall =>
    simp only [GroupCommitWriter.step, hdown, if_true] at h
    cases h
    exact ⟨hdown, List.prefix_rfl⟩
  | _ =>
    simp only [GroupCommitWriter.step, GroupCommitWriter.wake, GroupCommitWriter.take,
      GroupCommitWriter.startResolving] at h
    repeat' split at h
    all_goals first
      | (cases h; done)
      | (cases h; exact ⟨hdown, List.prefix_rfl⟩)

theorem turnedAway_step {a : Act} (hmax : 0 < max) (hs : TurnedAway s) (h : step max s a = some s') :
    TurnedAway s' := by
  have hinv := inv_step hmax hs.inv h
  have hkeep : ∀ {a : GroupCommitWriter.Act} {c'}, committerStep max s.committer a = some c' →
      c'.shutdown = true ∧ ∀ ticket ∈ s.futures, ticket ∈ c'.rejected.map Prod.fst := by
    intro a c' hc
    obtain ⟨hdown, hpre⟩ := shutdown_committerStep hs.shutdown hc
    exact ⟨hdown, fun t ht => (hpre.map Prod.fst).subset (hs.futures t ht)⟩
  obtain ⟨-, rfl⟩ | ⟨_, _, -, rfl⟩ | ⟨_, _, _, _, c', -, hc, rfl⟩ | ⟨_, -, -, rfl⟩ | ⟨_, c', hc, rfl⟩ := step_cases h
  · exact ⟨hinv, hs.shutdown, hs.futures⟩
  · exact ⟨hinv, hs.shutdown, hs.futures⟩
  · obtain ⟨hdown, hfutures⟩ := hkeep hc
    refine ⟨hinv, hdown, fun t ht => ?_⟩
    rcases List.mem_append.mp ht with ht | ht
    · exact hfutures t ht
    · -- the submission was turned away under its own ticket
      rw [List.mem_singleton.mp ht]
      simp only [committerStep, sinkSays, if_true, GroupCommitWriter.step, hs.shutdown] at hc
      cases hc
      simp
  · exact ⟨hinv, hs.shutdown, hs.futures⟩
  · obtain ⟨hdown, hfutures⟩ := hkeep hc
    exact ⟨hinv, hdown, hfutures⟩

theorem TurnedAway.not_handed (hs : TurnedAway s) {ticket : Nat} (h : ticket ∈ s.futures) :
    ¬ GroupCommitWriter.Handed ticket s.committer := by
  intro hhanded
  have hnodup := hs.inv.tickets.nodup_iff.mpr List.nodup_range
  exact (List.nodup_append.mp hnodup).2.2 _ (hhanded.accepted hs.inv) _ (hs.futures _ h) rfl

/-! ## Batches that leave something -/

theorem submit_open (max : Nat) (bytes : Bytes) (hdown : c.shutdown = false) :
    committerStep max c (.submit bytes) = some
      { c with nextTicket := c.nextTicket + 1, queue := c.queue ++ [⟨c.nextTicket, bytes⟩],
               accepted := c.accepted ++ [⟨c.nextTicket, bytes⟩],
               stats := { c.stats with submitted := c.stats.submitted + 1 }, owed := c.owed + 1 } := by
  simp only [committerStep, sinkSays, if_true, GroupCommitWriter.step, hdown, Bool.false_eq_true, if_false]

theorem onItsWay_submit {bytes : Bytes} (ticket : Nat) (hdown : c.shutdown = false)
    (h : committerStep max c (.submit bytes) = some c') :
    c'.shutdown = false ∧ OnItsWay c.nextTicket c' ∧ (OnItsWay ticket c → OnItsWay ticket c') := by
  rw [submit_open max bytes hdown] at h
  cases h
  refine ⟨hdown, .inl ?_, ?_⟩
  · simp
  · rintro (h | h)
    · refine .inl ?_
      rw [List.map_append]
      exact List.mem_append_left _ h
    · exact .inr h

theorem run_to_null (max : Nat) {id : UInt64} {tl : List Point} {ticket : Nat} :
    ∀ (pre : List Point) (s : State), (∀ p ∈ pre, p.vec ≠ none) → s.pc = .loop (pre ++ ⟨none, id⟩ :: tl) →
      s.committer.shutdown = false → ticket ∈ s.futures → OnItsWay ticket s.committer →
      ∃ acts s', run (step max) s acts = some s' ∧ s'.pc = .returned nullVector ∧ ticket ∈ s'.futures ∧
        OnItsWay ticket s'.committer
  | [], s, _, hpc, _, hticket, hway =>
    ⟨[.element 0], { s with pc := .returned nullVector }, by simp [run, step, hpc], rfl, hticket, hway⟩
  | ⟨none, _⟩ :: pre, s, hpre, _, _, _, _ => absurd rfl (hpre _ List.mem_cons_self)
  | ⟨some vec, id'⟩ :: pre, s, hpre, hpc, hdown, hticket, hway => by
    have hc := submit_open max (WalEntry.serializeInsert id' vec (-1) 0) hdown
    obtain ⟨hdown', -, hkeep⟩ := onItsWay_submit ticket hdown hc
    obtain ⟨acts, s', hrun, hend⟩ := run_to_null max pre ⟨_, .loop (pre ++ ⟨none, id⟩ :: tl),
      s.futures ++ [s.committer.nextTicket]⟩ (fun p hp => hpre p (List.mem_cons_of_mem _ hp)) rfl hdown'
      (List.mem_append_left _ hticket) (hkeep hway)
    exact ⟨.element 0 :: acts, s', run_cons.mpr ⟨_, by simp [step, hpc, hc], hrun⟩, hend⟩

theorem run_others {acts : List GroupCommitWriter.Act} (hworks : ∀ a ∈ acts, GroupCommitWriter.SinkWorks a)
    (h : run (GroupCommitWriter.step max) s.committer acts = some c') :
    run (step max) s (acts.map .other) = some { s with committer := c' } := by
  induction acts generalizing s with
  | nil =>
    cases h
    rfl
  | cons a acts ih =>
    obtain ⟨c₁, hc₁, h⟩ := run_cons.mp h
    obtain ⟨ha, hacts⟩ := List.forall_mem_cons.mp hworks
    have hsays : sinkSays a = true := by
      cases a with
      | write o => simp [sinkSays, ha o (.inl rfl)]
      | sync o =>
        rw [ha o (.inr rfl)]
        rfl
      | _ => rfl
    refine run_cons.mpr ⟨{ s with committer := c₁ }, ?_, ih hacts h⟩
    simp [step, committerStep, hsays, hc₁]

/-! ## When a rejected batch leaves nothing -/

/-- The call is turned away as a whole, or a null vector comes before any record. -/
def Harmless (ready : Bool) (points : List Point) (c : GroupCommitWriter.State) : Prop :=
  ready = false ∨ c.shutdown = true ∨ (∀ p ∈ points, p.vec ≠ none) ∨ ∀ p ∈ points.head?, p.vec = none

theorem inv_committer (hmax : 0 < max) {acts : List GroupCommitWriter.Act}
    (h : run (committerStep max) {} acts = some c) : GroupCommitWriter.Inv c ∧ Clean c := by
  refine run_inv (I := fun c => GroupCommitWriter.Inv c ∧ Clean c) (Q := fun _ _ => True) ?_ ?_ (along_true _ _) h
  · exact fun hs _ hc => ⟨inv_committerStep hmax hs.1 hc, clean_committerStep hs.2 hc⟩
  · exact ⟨GroupCommitWriter.inv_init, by simp [Clean]⟩

theorem committer_enter (ready : Bool) (points : List Point) (c : GroupCommitWriter.State) :
    (enter ready points c).committer = c := by
  unfold enter
  split_ifs <;> rfl

theorem futures_enter (ready : Bool) (points : List Point) (c : GroupCommitWriter.State) :
    (enter ready points c).futures = [] := by
  unfold enter
  split_ifs <;> rfl

theorem not_handed_of_harmless (hmax : 0 < max) (hi : GroupCommitWriter.Inv c) (hclean : Clean c) {ready : Bool}
    {points : List Point} (h : Harmless ready points c) :
    RejectedNever GroupCommitWriter.Handed max (enter ready points c) := by
  intro acts s' st hrun hreturned hinvalid ticket hticket
  -- a call that starts out untouched submits nothing
  have huntouched : Untouched (enter ready points c) → ticket ∈ ([] : List Nat) := by
    intro h0
    have hend : Untouched s' :=
      run_inv (I := Untouched) (Q := fun _ _ => True) (fun hs _ hc => untouched_step hs hc) h0 (along_true _ _) hrun
    rw [← hend.1]
    exact hticket
  have hi' : GroupCommitWriter.Inv (enter ready points c).committer := (committer_enter ready points c).symm ▸ hi
  rcases h with rfl | hdown | hnone | hfirst
  · exact absurd (huntouched ⟨rfl, .inl ⟨_, rfl⟩⟩) List.not_mem_nil
  · have h0 : TurnedAway (enter ready points c) :=
      ⟨hi', by rw [committer_enter, hdown], by simp [futures_enter]⟩
    have hend : TurnedAway s' :=
      run_inv (I := TurnedAway) (Q := fun _ _ => True) (fun hs _ hc => turnedAway_step hmax hs hc) h0
        (along_true _ _) hrun
    exact hend.not_handed hticket
  · have h0 : NoNull (enter ready points c) := by
      refine ⟨hi', by rwa [committer_enter], fun rest hrest => ?_, fun st hst => ?_⟩
      · unfold enter at hrest
        split_ifs at hrest
        cases hrest
        exact hnone
      · unfold enter at hst
        split_ifs at hst <;> cases hst <;> simp [notReady, phnswStatus, Status.okStatus]
    have hend : NoNull s' :=
      run_inv (I := NoNull) (Q := fun _ _ => True) (fun hs _ hc => noNull_step hmax hs hc) h0 (along_true _ _) hrun
    exact absurd hinvalid (hend.returned _ hreturned)
  · refine absurd (huntouched ⟨futures_enter _ _ _, ?_⟩) List.not_mem_nil
    unfold enter
    split_ifs with hready hempty
    · exact .inl ⟨_, rfl⟩
    · exact .inl ⟨_, rfl⟩
    · obtain _ | ⟨⟨vec, id⟩, rest⟩ := points
      · exact absurd rfl hempty
      · obtain rfl : vec = none := hfirst _ rfl
        exact .inr ⟨id, rest, rfl⟩

theorem harmless_of_not_committed (hmax : 0 < max) (hi : GroupCommitWriter.Inv c) {ready : Bool} {points : List Point}
    (h : RejectedNever Committed max (enter ready points c)) : Harmless ready points c := by
  by_contra hharm
  simp only [Harmless, not_or, Bool.not_eq_false, Bool.not_eq_true, not_forall, not_not, exists_prop] at hharm
  obtain ⟨rfl, hdown, ⟨p, hp, hnull⟩, ⟨p₀, hfirst, hvec⟩⟩ := hharm
  obtain ⟨tl, rfl⟩ : ∃ tl, points = p₀ :: tl := by
    cases points with
    | nil => cases hp
    | cons q tl =>
      cases hfirst
      exact ⟨tl, rfl⟩
  obtain ⟨vec, hvec⟩ := Option.ne_none_iff_exists'.mp hvec
  obtain ⟨p₀vec, id₀⟩ := p₀
  subst hvec
  -- cut the batch at its first null vector
  have hp : p ∈ tl := (List.mem_cons.mp hp).resolve_left (by rintro rfl; cases hnull)
  obtain ⟨⟨_, id⟩, hfind⟩ := Option.isSome_iff_exists.mp
    (List.find?_isSome (p := fun p : Point => p.vec.isNone).mpr ⟨p, hp, by rw [hnull]; rfl⟩)
  obtain ⟨hnone, pre, post, rfl, hpre⟩ := List.find?_eq_some_iff_append.mp hfind
  obtain rfl : _ = none := Option.isNone_iff_eq_none.mp hnone
  have hpre : ∀ p ∈ pre, p.vec ≠ none := by
    intro p hp hvec
    simpa [hvec] using hpre p hp
  -- the first record is on its way, and stays so until the null vector
  obtain ⟨c₁, hc₁⟩ : ∃ c₁, committerStep max c (.submit (WalEntry.serializeInsert id₀ vec (-1) 0)) = some c₁ :=
    ⟨_, submit_open max _ hdown⟩
  obtain ⟨hdown₁, hway, -⟩ := onItsWay_submit c.nextTicket hdown hc₁
  obtain ⟨acts, s', hrun, hreturned, hticket, hway'⟩ := run_to_null max pre
    ⟨c₁, .loop (pre ++ ⟨none, id⟩ :: post), [c.nextTicket]⟩ hpre rfl hdown₁ (List.mem_singleton_self _) hway
  have hfirst : step max (enter true (⟨some vec, id₀⟩ :: (pre ++ ⟨none, id⟩ :: post)) c) (.element 0) =
      some ⟨c₁, .loop (pre ++ ⟨none, id⟩ :: post), [c.nextTicket]⟩ := by
    simp [enter, step, hc₁]
  have hrun := run_cons.mpr ⟨_, hfirst, hrun⟩
  have hi' : GroupCommitWriter.Inv s'.committer :=
    run_inv (I := fun s => GroupCommitWriter.Inv s.committer) (Q := fun _ _ => True)
      (fun hs _ hc => inv_step hmax hs hc) (by rwa [committer_enter]) (along_true _ _) hrun
  -- the batch was rejected, and the committer commits its first record
  obtain ⟨later, c', hworks, hlater, hcommitted⟩ := hway'.commits hmax hi'
  have hend := run_append.mpr ⟨s', hrun, run_others hworks hlater⟩
  exact h _ _ _ hend hreturned rfl _ hticket hcommitted

/-- In whatever state the index is: a batch rejected as invalid leaves nothing behind exactly when the call was turned
away as a whole or a null vector comes before any record. Otherwise a record can be in the log and applied. -/
theorem rejected_leaves_nothing_iff (maxBatch : Int) (ready : Bool) (points : List Point)
    {acts : List GroupCommitWriter.Act} {c : GroupCommitWriter.State}
    (h : run (committerStep (GroupCommitWriter.clampBatch maxBatch)) {} acts = some c) :
    (RejectedNever GroupCommitWriter.Handed (GroupCommitWriter.clampBatch maxBatch) (enter ready points c) ↔
      Harmless ready points c) ∧
    (RejectedNever Committed (GroupCommitWriter.clampBatch maxBatch) (enter ready points c) ↔
      Harmless ready points c) := by
  have hmax := GroupCommitWriter.clampBatch_pos maxBatch
  obtain ⟨hi, hclean⟩ := inv_committer hmax h
  have hweaker : RejectedNever GroupCommitWriter.Handed (GroupCommitWriter.clampBatch maxBatch) (enter ready points c) →
      RejectedNever Committed (GroupCommitWriter.clampBatch maxBatch) (enter ready points c) :=
    fun hn acts s' st hrun hret hinv t ht hcom => hn acts s' st hrun hret hinv t ht hcom.handed
  have hback : Harmless ready points c → _ := not_handed_of_harmless hmax hi hclean
  exact ⟨⟨fun hn => harmless_of_not_committed hmax hi (hweaker hn), hback⟩,
    ⟨harmless_of_not_committed hmax hi, fun hn => hweaker (hback hn)⟩⟩

def secondNull : List Point := [⟨some [0x3f800000], 1⟩, ⟨none, 2⟩]

/-- A null vector alone is refused before anything is submitted; behind another record it is not. -/
theorem rejected_leaves_nothing_iff_fresh :
    RejectedNever GroupCommitWriter.Handed 32 (enter true [⟨none, 2⟩] {}) ∧
      ¬ RejectedNever Committed 32 (enter true secondNull {}) := by
  have hrun : run (committerStep (GroupCommitWriter.clampBatch 32)) {} [] = some {} := rfl
  refine ⟨((rejected_leaves_nothing_iff 32 true [⟨none, 2⟩] hrun).1).mpr ?_,
    mt ((rejected_leaves_nothing_iff 32 true secondNull hrun).2).mp ?_⟩
  · exact .inr (.inr (.inr (by decide)))
  · simp [Harmless, secondNull]

/-- The call rejects the batch; the flush thread then writes, syncs and applies its first record. -/
theorem rejected_batch_committed :
    ∃ s', run (step 32) (enter true secondNull {})
        [.element 0, .element 0, .other .check, .other (.coalesced true), .other (.write (.returned Status.okStatus)),
          .other (.sync (.returned Status.okStatus))] = some s' ∧
      s'.pc = .returned nullVector ∧ ∃ ticket ∈ s'.futures, Committed ticket s'.committer := by
  refine ⟨_, rfl, rfl, 0, List.mem_singleton_self _, _, List.mem_singleton_self _, List.mem_singleton_self _, rfl, ?_⟩
  exact ⟨_, rfl, rfl⟩

end Cortrix.Store.Phnsw.AddPoints
