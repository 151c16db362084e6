import Mathlib.Data.List.Nodup
import Mathlib.Tactic.IntervalCases
import Cortrix.Store.GroupCommitWriter

/-!
# Group commit: delivery, resolution and shutdown

Over every run of the writer's threads:

* the sink gets the accepted records in queue order, none twice and none skipped (`handed_append`);
* a future has at most one resolution (`length_resolutions_le`), Ok exactly when both calls of the sink
  for its batch returned Ok (`resolution_truthful`);
* when the `Shutdown` call that set the flag has returned, nothing is left to do and nothing reaches the
  sink any more (`shutdown_returned`, `handed_stable`);
* on every fair run each future is resolved (`eventually_resolved`).
-/

namespace Cortrix.Store.GroupCommitWriter
open Lib

/-- The values set on the promise of one `Submit` call. -/
def resolutions (s : State) (ticket : Nat) : List Status :=
  ((s.rejected ++ s.resolved).filter fun d => d.1 == ticket).map Prod.snd

section
variable {max : Nat} {s s' : State} {ticket : Nat}

theorem mem_resolutions {st : Status} :
    st ∈ resolutions s ticket ↔ (ticket, st) ∈ s.rejected ∨ (ticket, st) ∈ s.resolved := by
  simp [resolutions]

theorem length_resolutions :
    (resolutions s ticket).length = (s.rejected.map Prod.fst ++ s.resolved.map Prod.fst).count ticket := by
  rw [resolutions, List.length_map, ← List.countP_eq_length_filter, ← List.map_append, List.count_eq_countP,
    List.countP_map]
  rfl

theorem length_resolutions_le (ticket : Nat) (hi : Inv s) : (resolutions s ticket).length ≤ 1 := by
  rw [length_resolutions]
  refine List.nodup_iff_count_le_one.mp ?_ ticket
  obtain ⟨hleft, hrej, hdisj⟩ := List.nodup_append.mp (tickets_nodup hi)
  refine List.nodup_append.mpr ⟨hrej, (List.nodup_append.mp hleft).1, fun a ha b hb h => ?_⟩
  exact hdisj b (List.mem_append_left _ hb) a ha h.symm

theorem length_resolutions_eq_one (hi : Inv s) (hticket : ticket < s.nextTicket) (hwait : ticket ∉ waiting s) :
    (resolutions s ticket).length = 1 := by
  have hmem : ticket ∈ s.accepted.map Pending.ticket ++ s.rejected.map Prod.fst :=
    hi.tickets.mem_iff.mpr (List.mem_range.mpr hticket)
  rw [accepted_tickets hi] at hmem
  have hpos : 0 < (resolutions s ticket).length := by
    rw [length_resolutions, List.count_pos_iff]
    simp only [List.mem_append] at hmem ⊢
    tauto
  have := length_resolutions_le ticket hi
  omega

/-- Taken from the queue, not handed to the sink yet. -/
def Phase.unhanded : Phase → List Pending
  | .writing batch => batch
  | _ => []

theorem handed_append (hi : Inv s) :
    s.handed ++ (s.phase.unhanded ++ s.queue).map Pending.bytes = s.accepted.map Pending.bytes := by
  have hsplit : s.phase.midFlush ++ s.phase.unhanded = s.phase.unflushed := by
    cases s.phase <;> simp [Phase.midFlush, Phase.unhanded, Phase.unflushed]
  rw [hi.handed, ← hi.order, ← hsplit]
  simp only [List.map_append, List.append_assoc]

theorem Flush.durable_iff {f : Flush} (h : f.sync.isSome = f.write.isOk) : f.Durable ↔ f.status.isOk = true := by
  unfold Flush.Durable Flush.status
  cases hs : f.sync with
  | none =>
    rw [hs, Option.isSome_none] at h
    simp only [reduceCtorEq, false_and, exists_false, and_false, false_iff]
    exact fun hok => Bool.false_ne_true (h.trans hok)
  | some o =>
    rw [hs, Option.isSome_some] at h
    constructor
    · rintro ⟨-, o', ho, hok⟩
      cases ho
      exact hok
    · exact fun hok => ⟨h.symm, o, rfl, hok⟩

theorem exists_flush (hi : Inv s) {st : Status} (h : (ticket, st) ∈ s.resolved) :
    ∃ f ∈ s.flushes, ticket ∈ f.batch.map Pending.ticket ∧ st = f.status := by
  have hmem : (ticket, st) ∈ verdicts s.flushes := hi.verdicts ▸ List.mem_append_left _ h
  obtain ⟨f, hf, hmap⟩ := List.mem_flatMap.mp hmem
  obtain ⟨p, hp, heq⟩ := List.mem_map.mp hmap
  cases heq
  exact ⟨f, hf, List.mem_map.mpr ⟨p, hp, rfl⟩, rfl⟩

theorem mem_flushed_tickets {f : Flush} (hf : f ∈ s.flushes) (ht : ticket ∈ f.batch.map Pending.ticket) :
    (ticket, f.status) ∈ verdicts s.flushes := by
  obtain ⟨p, hp, rfl⟩ := List.mem_map.mp ht
  exact List.mem_flatMap.mpr ⟨f, hf, List.mem_map.mpr ⟨p, hp, rfl⟩⟩

/-- Resolutions tell the truth: Ok exactly when the batch that held the record was written and synced. -/
theorem resolution_truthful (hi : Inv s) {st : Status} (h : st ∈ resolutions s ticket) :
    st.isOk = true ↔ ∃ f ∈ s.flushes, ticket ∈ f.batch.map Pending.ticket ∧ f.Durable := by
  have hkeys : (verdicts s.flushes).map Prod.fst = s.resolved.map Prod.fst ++ s.phase.toResolve.map Prod.fst := by
    rw [← hi.verdicts, List.map_append]
  have hnodup := tickets_nodup hi
  simp only [waiting, ← List.append_assoc, ← hkeys] at hnodup
  rcases mem_resolutions.mp h with hrej | hres
  · -- a rejected record was never queued, so no flush holds it
    refine iff_of_false (by simp [hi.rejected _ hrej]) ?_
    rintro ⟨f, hf, ht, -⟩
    have hv : ticket ∈ (verdicts s.flushes).map Prod.fst :=
      List.mem_map.mpr ⟨_, mem_flushed_tickets hf ht, rfl⟩
    exact (List.nodup_append.mp hnodup).2.2 ticket (by simp only [List.mem_append]; tauto) ticket
      (List.mem_map.mpr ⟨_, hrej, rfl⟩) rfl
  · obtain ⟨f, hf, ht, rfl⟩ := exists_flush hi hres
    rw [← Flush.durable_iff (hi.synced f hf)]
    refine ⟨fun hd => ⟨f, hf, ht, hd⟩, ?_⟩
    rintro ⟨g, hg, htg, hdurable⟩
    have hvkeys : ((verdicts s.flushes).map Prod.fst).Nodup := by
      simp only [List.append_assoc] at hnodup
      exact (List.nodup_append.mp hnodup).1
    have heq := List.inj_on_of_nodup_map hvkeys (mem_flushed_tickets hf ht) (mem_flushed_tickets hg htg) rfl
    have hstatus : f.status = g.status := congrArg Prod.snd heq
    rw [Flush.durable_iff (hi.synced f hf), hstatus, ← Flush.durable_iff (hi.synced g hg)]
    exact hdurable

/-! ## Shutdown -/

theorem waiting_exited (hi : Inv s) (h : s.phase = .exited) : waiting s = [] := by
  simp [waiting, h, (hi.exited h).1, Phase.toResolve, Phase.unflushed]

theorem shutdown_returned (hi : Inv s) (h : s.stopper = .returned) :
    s.queue = [] ∧ ∀ ticket < s.nextTicket, (resolutions s ticket).length = 1 := by
  have hexit := hi.returned h
  refine ⟨(hi.exited hexit).1, fun ticket ht => length_resolutions_eq_one hi ht ?_⟩
  rw [waiting_exited hi hexit]
  exact List.not_mem_nil

theorem exited_step {a : Act} (hi : Inv s) (hexit : s.phase = .exited) (h : step max s a = some s') :
    s'.phase = .exited ∧ s'.handed = s.handed := by
  have hdown := (hi.exited hexit).2
  cases a <;> simp only [step, hexit, hdown, wake, reduceCtorEq, if_true, if_false, ne_eq, not_false_eq_true,
    false_and, Option.some.injEq] at h
  case submit bytes =>
    subst h
    exact ⟨rfl, rfl⟩
  case shutdownCall =>
    subst h
    exact ⟨hexit, rfl⟩
  all_goals
    split at h
    · cases h
      exact ⟨rfl, rfl⟩
    · cases h

theorem handed_stable (hmax : 0 < max) (hi : Inv s) (hexit : s.phase = .exited) {acts : List Act}
    (h : run (step max) s acts = some s') : s'.handed = s.handed := by
  have hinv : Inv s' ∧ s'.phase = .exited ∧ s'.handed = s.handed := by
    refine run_inv (Q := fun _ _ => True) (I := fun t => Inv t ∧ t.phase = .exited ∧ t.handed = s.handed)
      ?_ ⟨hi, hexit, rfl⟩ (along_true _ _) h
    rintro t a t' ⟨hit, hphase, hhanded⟩ - hstep
    obtain ⟨hphase', hhanded'⟩ := exited_step hit hphase hstep
    exact ⟨inv_step hmax hit hstep, hphase', hhanded'.trans hhanded⟩
  exact hinv.2.2

/-! ## Every future is resolved

Fairness asks two things of the threads: the flush thread, when it is not asleep in `cv_.wait`, goes on (its
timed wait ends and the calls of the sink return), and a submitter that queued its record comes to its
notification. -/

inductive Duty
  | flushThread | submitter

def Due : Duty → State → Prop
  | .flushThread, s => s.phase ≠ .blocked ∧ s.phase ≠ .exited
  | .submitter, s => 0 < s.owed

def Meets : Duty → Act → Prop
  | .flushThread, a => a = .check ∨ (∃ b, a = .coalesced b) ∨ (∃ o, a = .write o) ∨ (∃ o, a = .sync o) ∨
      a = .resolve ∨ a = .count
  | .submitter, a => a = .notify

/-- How far the flush thread is from its next resolution. -/
def Phase.rank : Phase → Nat
  | .resolving _ _ [] => 8
  | .counting _ _ => 7
  | .blocked => 6
  | .check => 5
  | .coalescing => 4
  | .writing _ => 3
  | .syncing _ _ => 2
  | .resolving _ _ (_ :: _) => 1
  | .lastResort _ => 0
  | .exited => 0

/-- Resolutions to come before the ticket's own, then steps to the next one. -/
def distance (ticket : Nat) (s : State) : Nat := 10 * (waiting s).idxOf ticket + s.phase.rank

/-- The obligation that brings the ticket's resolution closer. -/
def Helpful : Duty → State → Prop
  | .flushThread, s => s.phase ≠ .blocked ∧ s.phase ≠ .exited
  | .submitter, s => s.phase = .blocked ∧ 0 < s.owed

theorem exists_helpful (hi : Inv s) (hwait : ticket ∈ waiting s) : ∃ i, Helpful i s := by
  have hlive : s.phase ≠ .exited := fun h => by
    rw [waiting_exited hi h] at hwait
    cases hwait
  by_cases hb : s.phase = .blocked
  · refine ⟨.submitter, hb, (hi.wakeup hb).1 fun hq => ?_⟩
    simp [waiting, hb, hq, Phase.toResolve, Phase.unflushed] at hwait
  · exact ⟨.flushThread, hb, hlive⟩

theorem waiting_take (hplain : s.phase.toResolve = [] ∧ s.phase.unflushed = []) :
    waiting (take max s) = waiting s := by
  unfold take waiting
  simp only [hplain.1, hplain.2]
  have hcut := congrArg (List.map Pending.ticket) (List.take_append_drop (min s.queue.length max) s.queue)
  rw [List.map_append] at hcut
  split
  · rename_i hempty
    rw [List.isEmpty_iff.mp hempty, List.map_nil, List.nil_append] at hcut
    simp only [Phase.toResolve, Phase.unflushed, hcut]
  · simp only [Phase.toResolve, Phase.unflushed, List.map_nil, List.nil_append, hcut]

theorem rank_take (hmax : 0 < max) (hq : s.queue ≠ []) : (take max s).phase.rank = 3 := by
  simp only [take, take_isEmpty hmax hq, Bool.false_eq_true, if_false]
  rfl

theorem distance_wake (ticket : Nat) :
    distance ticket (wake s) < distance ticket s ∨
      distance ticket (wake s) = distance ticket s ∧ s.phase ≠ .blocked := by
  unfold wake
  split
  · rename_i hb
    left
    simp [distance, waiting, hb, Phase.rank, Phase.toResolve, Phase.unflushed]
  · rename_i hb
    exact Or.inr ⟨rfl, hb⟩

/-- A step of the flush thread brings a waiting ticket closer to its resolution. -/
theorem distance_flushThread {a : Act} (hmax : 0 < max) (hi : Inv s) (hwait : ticket ∈ waiting s)
    (hwait' : ticket ∈ waiting s') (ha : Meets .flushThread a) (h : step max s a = some s') :
    distance ticket s' < distance ticket s := by
  rcases ha with rfl | ⟨timedOut, rfl⟩ | ⟨o, rfl⟩ | ⟨o, rfl⟩ | rfl | rfl
  · simp only [step] at h
    split at h
    · cases h
    rename_i hphase
    have hphase : s.phase = .check := not_not.mp hphase
    have hq : s.queue ≠ [] := fun hq => by
      simp [waiting, hphase, hq, Phase.toResolve, Phase.unflushed] at hwait
    have hne : s.queue.isEmpty = false := List.isEmpty_eq_false_iff.mpr hq
    simp only [hne, Bool.false_and, Bool.false_eq_true, if_false] at h
    split at h
    · cases h
      simp [distance, waiting, hphase, Phase.rank, Phase.toResolve, Phase.unflushed]
    · cases h
      rw [distance, distance, waiting_take (by rw [hphase]; exact ⟨rfl, rfl⟩), rank_take hmax hq, hphase, Phase.rank]
      omega
  · simp only [step] at h
    split at h
    · rename_i hc
      cases h
      rw [distance, distance, waiting_take (by rw [hc.1]; exact ⟨rfl, rfl⟩), rank_take hmax (hi.coalescing hc.1),
        hc.1, Phase.rank]
      omega
    · cases h
  · simp only [step] at h
    split at h
    · rename_i batch hphase
      have hne := hi.batch batch (Or.inl hphase)
      split at h
      · cases h
        simp [distance, waiting, hphase, Phase.rank, Phase.toResolve, Phase.unflushed]
      · cases h
        obtain ⟨p, rest, rfl⟩ := List.exists_cons_of_ne_nil hne
        simp [distance, waiting, startResolving, hphase, Phase.rank, Phase.toResolve, Phase.unflushed, Function.comp_def]
    · cases h
  · simp only [step] at h
    split at h
    · rename_i batch w hphase
      have hne := hi.batch batch (Or.inr ⟨w, hphase⟩)
      cases h
      obtain ⟨p, rest, rfl⟩ := List.exists_cons_of_ne_nil hne
      simp [distance, waiting, startResolving, hphase, Phase.rank, Phase.toResolve, Phase.unflushed, Function.comp_def]
    · cases h
  · simp only [step] at h
    split at h
    · rename_i st batch p rest hphase
      rw [not_isResolved hi hphase] at h
      cases h
      have hcons : waiting s = p.ticket :: waiting { s with
          resolved := s.resolved ++ [(p.ticket, st)], phase := .resolving st batch rest } := by
        simp [waiting, hphase, Phase.toResolve, Phase.unflushed]
      -- the ticket resolved now is another one, since ours still waits
      have hother : p.ticket ≠ ticket := by
        rintro rfl
        have hnodup := (List.nodup_append.mp (List.nodup_append.mp (tickets_nodup hi)).1).2.1
        rw [hcons] at hnodup
        exact (List.nodup_cons.mp hnodup).1 hwait'
      rw [distance, distance, hcons, List.idxOf_cons_ne _ hother, hphase]
      have hrank : (Phase.resolving st batch rest).rank ≤ 8 := by
        cases rest <;> simp [Phase.rank]
      simp only [Phase.rank] at hrank ⊢
      omega
    · rename_i st batch hphase
      cases h
      simp [distance, waiting, hphase, Phase.rank, Phase.toResolve, Phase.unflushed]
    · rename_i hphase
      exact absurd hphase (hi.noLastResort _)
    · rename_i hphase
      exact absurd hphase (hi.noLastResort _)
    · cases h
  · simp only [step] at h
    split at h
    · rename_i st batch hphase
      cases h
      simp [distance, waiting, hphase, Phase.rank, Phase.toResolve, Phase.unflushed]
    · cases h

theorem wake_phase (h : s.phase ≠ .blocked) : wake s = s := if_neg h

/-- Any step brings a waiting ticket closer or leaves it where it is, the helpful obligation still due. -/
theorem distance_step {i : Duty} {a : Act} (hmax : 0 < max) (hi : Inv s) (hwait : ticket ∈ waiting s)
    (hwait' : ticket ∈ waiting s') (hhelp : Helpful i s) (h : step max s a = some s') :
    distance ticket s' < distance ticket s ∨
      distance ticket s' = distance ticket s ∧ Helpful i s' ∧ ¬ Meets i a := by
  by_cases ha : Meets .flushThread a
  · exact Or.inl (distance_flushThread hmax hi hwait hwait' ha h)
  have hlive : s.phase ≠ .exited := fun h => by
    rw [waiting_exited hi h] at hwait
    cases hwait
  cases a with
  | submit bytes =>
    simp only [step] at h
    right
    split at h
    · cases h
      exact ⟨rfl, by cases i <;> exact hhelp, by cases i <;> simp [Meets]⟩
    · cases h
      refine ⟨?_, ?_, by cases i <;> simp [Meets]⟩
      · simp only [distance]
        congr 2
        simp only [waiting, List.map_append, ← List.append_assoc]
        exact List.idxOf_append_of_mem hwait
      · cases i with
        | flushThread => exact hhelp
        | submitter => exact ⟨hhelp.1, Nat.succ_pos _⟩
  | notify =>
    simp only [step] at h
    split at h
    · cases h
      rcases distance_wake (s := { s with owed := s.owed - 1 }) ticket with hlt | ⟨heq, hnot⟩
      · exact Or.inl hlt
      · rw [wake_phase hnot]
        cases i with
        | flushThread => exact Or.inr ⟨rfl, hhelp, by simp [Meets]⟩
        | submitter => exact absurd hhelp.1 hnot
    · cases h
  | shutdownCall =>
    simp only [step] at h
    right
    split at h <;> cases h <;> exact ⟨rfl, by cases i <;> exact hhelp, by cases i <;> simp [Meets]⟩
  | shutdownNotify =>
    simp only [step] at h
    split at h
    · cases h
      rcases distance_wake (s := { s with stopper := .joining }) ticket with hlt | ⟨heq, hnot⟩
      · exact Or.inl hlt
      · rw [wake_phase hnot]
        exact Or.inr ⟨rfl, by cases i <;> exact hhelp, by cases i <;> simp [Meets]⟩
    · cases h
  | shutdownReturn =>
    simp only [step] at h
    split at h
    · rename_i hst
      exact absurd hst.2 hlive
    · cases h
  | spuriousWake =>
    simp only [step] at h
    split at h
    · rename_i hb
      cases h
      rcases distance_wake (s := s) ticket with hlt | ⟨heq, hnot⟩
      · exact Or.inl hlt
      · exact absurd hb hnot
    · cases h
  | _ => exact absurd (by simp [Meets]) ha

theorem nextTicket_mono {a : Act} (h : step max s a = some s') : s.nextTicket ≤ s'.nextTicket := by
  cases a <;> simp only [step, wake, take, startResolving] at h
  all_goals repeat' split at h
  all_goals first
    | cases h; exact Nat.le_succ _
    | cases h; exact le_refl _
    | cases h

theorem eventually_resolved (hmax : 0 < max) (r : FairRun (step max) Due Meets) {t : Nat}
    (hi : Inv (r.state t)) (hticket : ticket < (r.state t).nextTicket) :
    ∃ u ≥ t, (resolutions (r.state u) ticket).length = 1 := by
  have hreach := r.leads_to (I := fun s => Inv s ∧ ticket < s.nextTicket) (G := fun s => ticket ∉ waiting s)
    (distance ticket) Helpful
    (fun hs h => ⟨inv_step hmax hs.1 h, lt_of_lt_of_le hs.2 (nextTicket_mono h)⟩)
    (fun hs hg => exists_helpful hs.1 (not_not.mp hg))
    (fun {i s} hh => by
      cases i with
      | flushThread => exact hh
      | submitter => exact hh.2)
    (fun hs hg hg' hh h => distance_step hmax hs.1 (not_not.mp hg) (not_not.mp hg') hh h)
    ⟨hi, hticket⟩
  obtain ⟨u, hu, hgoal⟩ := hreach
  have hsu := r.inv (I := fun s => Inv s ∧ ticket < s.nextTicket)
    (fun hs h => ⟨inv_step hmax hs.1 h, lt_of_lt_of_le hs.2 (nextTicket_mono h)⟩) ⟨hi, hticket⟩ hu
  exact ⟨u, hu, length_resolutions_eq_one hsu.1 hsu.2 hgoal⟩

end

theorem clampBatch_pos (maxBatch : Int) : 0 < clampBatch maxBatch := by
  unfold clampBatch
  split <;> omega

theorem inv_run {max : Nat} (hmax : 0 < max) {acts : List Act} {s : State} (h : run (step max) {} acts = some s) :
    Inv s :=
  run_inv (Q := fun _ _ => True) (fun hi _ hstep => inv_step hmax hi hstep) inv_init (along_true _ _) h

/-- **Delivery.** In every state the threads can reach, the sink has been given the accepted records in queue
order and the rest is on its way; a future has at most one resolution, Ok exactly when its batch was written
and synced; behind a returned `Shutdown` nothing is pending and nothing reaches the sink. On every fair run
each future is resolved. -/
theorem delivers_exactly_once (maxBatch : Int) :
    (∀ acts s, run (step (clampBatch maxBatch)) {} acts = some s →
      s.handed ++ (s.phase.unhanded ++ s.queue).map Pending.bytes = s.accepted.map Pending.bytes ∧
      (∀ ticket, (resolutions s ticket).length ≤ 1) ∧
      (∀ ticket st, st ∈ resolutions s ticket →
        (st.isOk = true ↔ ∃ f ∈ s.flushes, ticket ∈ f.batch.map Pending.ticket ∧ f.Durable)) ∧
      (s.stopper = .returned →
        s.queue = [] ∧ (∀ ticket < s.nextTicket, (resolutions s ticket).length = 1) ∧
          ∀ acts' s', run (step (clampBatch maxBatch)) s acts' = some s' → s'.handed = s.handed)) ∧
    (∀ r : FairRun (step (clampBatch maxBatch)) Due Meets, r.state 0 = {} →
      ∀ t ticket, ticket < (r.state t).nextTicket → ∃ u ≥ t, (resolutions (r.state u) ticket).length = 1) := by
  have hmax := clampBatch_pos maxBatch
  refine ⟨fun acts s h => ?_, fun r hinit t ticket hticket => ?_⟩
  · have hi := inv_run hmax h
    refine ⟨handed_append hi, fun ticket => length_resolutions_le ticket hi, fun ticket st hst => resolution_truthful hi hst,
      fun hret => ?_⟩
    obtain ⟨hq, hres⟩ := shutdown_returned hi hret
    exact ⟨hq, hres, fun acts' s' h' => handed_stable hmax hi (hi.returned hret) h'⟩
  · refine eventually_resolved hmax r ?_ hticket
    refine r.inv (fun hi h => inv_step hmax hi h) ?_ (Nat.zero_le t)
    rw [hinit]
    exact inv_init

/-- Two records in two batches, the second one not synced, and a shutdown; one more `Submit` comes too late. -/
def twoBatches : List Act :=
  [.submit [1], .check, .submit [2], .notify, .write (.returned Status.okStatus), .shutdownCall,
   .sync (.returned Status.okStatus), .submit [3], .resolve, .resolve, .count, .notify, .shutdownNotify, .check,
   .write (.returned Status.okStatus), .sync .threw, .resolve, .resolve, .count, .check, .shutdownReturn]

/-- One record, from an idle flush thread back to an idle flush thread. -/
def oneRecord : List Act :=
  [.check, .submit [1], .notify, .check, .coalesced true, .write (.returned Status.okStatus),
   .sync (.returned Status.okStatus), .resolve, .resolve, .count, .check]

def oneRecordRun : FairRun (step (clampBatch 32)) Due Meets where
  state t := (run (step (clampBatch 32)) {} (oneRecord.take t)).getD {}
  act t := oneRecord[t]?
  next t := by
    by_cases ht : t < 11
    · interval_cases t <;> rfl
    · have hlen : oneRecord.length ≤ t := by simpa [oneRecord] using ht
      rw [List.getElem?_eq_none hlen]
      simp only
      rw [List.take_of_length_le hlen, List.take_of_length_le (by omega)]
  fair i t hdue := by
    by_cases ht : t < 11
    · cases i with
      | flushThread => exact ⟨10, by omega, .check, rfl, Or.inl rfl⟩
      | submitter =>
        refine ⟨2, ?_, .notify, rfl, rfl⟩
        by_contra hlt
        interval_cases t <;> revert hdue <;> exact fun h => absurd h (by unfold Due; decide)
    · have hlen : oneRecord.length ≤ t := by simpa [oneRecord] using ht
      simp only [List.take_of_length_le hlen] at hdue
      cases i <;> revert hdue <;> exact fun h => absurd h (by unfold Due; decide)

theorem delivers_exactly_once_twoBatches :
    (∃ s, run (step (clampBatch 1)) {} twoBatches = some s ∧ s.stopper = .returned ∧ s.handed = [[1], [2]] ∧
      (resolutions s 0).map Status.isOk = [true] ∧ (resolutions s 1).map Status.isOk = [false] ∧
      (∀ ticket < 3, (resolutions s ticket).length = 1) ∧
      ∀ acts' s', run (step (clampBatch 1)) s acts' = some s' → s'.handed = [[1], [2]]) ∧
    ∃ u ≥ 2, (resolutions (oneRecordRun.state u) 0).length = 1 := by
  refine ⟨?_, (delivers_exactly_once 32).2 oneRecordRun rfl 2 0 (by decide)⟩
  have hsome : (run (step (clampBatch 1)) {} twoBatches).isSome = true := by decide
  obtain ⟨s, hs⟩ := Option.isSome_iff_exists.mp hsome
  obtain ⟨-, -, -, hdown⟩ := (delivers_exactly_once 1).1 twoBatches s hs
  have hfacts : (run (step (clampBatch 1)) {} twoBatches).all (fun s => s.stopper == .returned && s.nextTicket == 3 &&
      s.handed == [[1], [2]] && (resolutions s 0).map Status.isOk == [true] &&
      (resolutions s 1).map Status.isOk == [false]) = true := by decide
  rw [hs, Option.all_some] at hfacts
  simp only [Bool.and_eq_true, beq_iff_eq] at hfacts
  obtain ⟨⟨⟨⟨hret, hnext⟩, hhanded⟩, h0⟩, h1⟩ := hfacts
  obtain ⟨-, hres, hstable⟩ := hdown hret
  rw [hnext] at hres
  rw [hhanded] at hstable
  exact ⟨s, hs, hret, hhanded, h0, h1, hres, hstable⟩

end Cortrix.Store.GroupCommitWriter
