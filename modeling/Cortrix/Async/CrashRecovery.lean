import Cortrix.Async.TaskStatusMachine

/-!
# Recovery of the tasks after a crash

A crash leaves the table as the last critical section left it. The restart re-queues young `processing` rows, the cron
then runs its sweeps.

* `recovered_iff_noneCancelling` : every row gets to a final status exactly when none was `cancelling`. No sweep looks
  at that status.
-/

namespace Cortrix.Async.StatusMachine
open Lib

/-- One sweep of the cron: the clock it is given and the time it stamps. -/
inductive Sweep
  | zombies (nowUnix now : Int)
  | timedOut (nowUnix timeoutSeconds now : Int)

def Sweep.nowUnix : Sweep → Int
  | .zombies nowUnix _ => nowUnix
  | .timedOut nowUnix _ _ => nowUnix

def Sweep.apply (zombieHours : Int) : Sweep → Tasks → Tasks
  | .zombies nowUnix now, t => (sweepZombies nowUnix zombieHours now t).1
  | .timedOut nowUnix timeoutSeconds now, t => (sweepTimedOut nowUnix timeoutSeconds now t).1

def sweepAll (zombieHours : Int) (ws : List Sweep) (t : Tasks) : Tasks :=
  ws.foldl (fun t w => w.apply zombieHours t) t

/-- After the restart at `restart` no row is stranded: whatever sweeps have run since, a row that is neither queued nor
terminal is made terminal by some sweep. -/
def Recovered (zombieHours restart : Int) (t : Tasks) : Prop :=
  ∀ ws : List Sweep, (∀ w ∈ ws, restart ≤ w.nowUnix) → ∀ r ∈ sweepAll zombieHours ws t,
    r.status = .queued ∨ r.status.live = false ∨
      ∃ w : Sweep, restart ≤ w.nowUnix ∧ ∃ r' ∈ w.apply zombieHours (sweepAll zombieHours ws t),
        r'.taskId = r.taskId ∧ r'.status.live = false

def Recoverable (zombieHours restart : Int) (r : TaskRow) : Prop :=
  r.status ≠ .cancelling ∧ (r.status = .processing → r.updatedAt < zombieCutoff restart zombieHours)

variable {t : Tasks} {z restart : Int}

/-- A sweep changes a row in `processing` to `failed` and leaves every other row alone. -/
theorem mem_sweep {w : Sweep} {r' : TaskRow} (h : r' ∈ w.apply z t) :
    r' ∈ t ∨ ∃ r ∈ t, r.status = .processing ∧ r'.taskId = r.taskId ∧ r'.status = .failed := by
  cases w <;> obtain ⟨r, hr, rfl⟩ := mem_updateWhere.mp h <;> split
  case zombies.isTrue hg =>
    simp only [Bool.and_eq_true, beq_iff_eq] at hg
    exact .inr ⟨r, hr, hg.1, rfl, rfl⟩
  case timedOut.isTrue hg =>
    simp only [Bool.and_eq_true, beq_iff_eq] at hg
    exact .inr ⟨r, hr, hg.1, rfl, rfl⟩
  case zombies.isFalse => exact .inl hr
  case timedOut.isFalse => exact .inl hr

theorem recoverable_sweepAll (ws : List Sweep) (h : ∀ r ∈ t, Recoverable z restart r) :
    ∀ r ∈ sweepAll z ws t, Recoverable z restart r := by
  induction ws generalizing t with
  | nil => exact h
  | cons w ws ih =>
    refine ih fun r' hr' => ?_
    rcases mem_sweep hr' with hr | ⟨r, -, -, -, hst⟩
    · exact h r' hr
    · exact ⟨by rw [hst]; decide, fun hp => by rw [hst] at hp; cases hp⟩

/-- What the restart leaves in `processing` is past the zombie threshold. -/
theorem recoverable_requeue (h : ∀ r ∈ t, r.status ≠ .cancelling) (now : Int) :
    ∀ r ∈ (requeueStaleProcessing restart z now t).1, Recoverable z restart r := by
  intro r' hr'
  obtain ⟨r, hr, rfl⟩ := mem_updateWhere.mp hr'
  split
  · exact ⟨by simp, by simp⟩
  · rename_i hg
    refine ⟨h r hr, fun hp => ?_⟩
    simp only [hp, beq_self_eq_true, Bool.true_and, decide_eq_true_eq] at hg
    omega

theorem cancelling_requeue {r : TaskRow} (hr : r ∈ t) (hst : r.status = .cancelling) (now : Int) :
    r ∈ (requeueStaleProcessing restart z now t).1 := by
  have hmem := mem_updateWhere_of_mem
    (p := fun r => r.status == .processing && decide (zombieCutoff restart z ≤ r.updatedAt))
    (f := fun r => { r with status := .queued, workerId := -1, startedAt := none, updatedAt := now }) hr
  rwa [if_neg (by simp [hst])] at hmem

theorem not_recovered_of_cancelling (hkey : Keyed (fun r => r.taskId) t) {r : TaskRow} (hr : r ∈ t)
    (hst : r.status = .cancelling) (now : Int) :
    ¬ Recovered z restart (requeueStaleProcessing restart z now t).1 := by
  intro hrec
  have hr₁ : r ∈ (requeueStaleProcessing restart z now t).1 := cancelling_requeue hr hst now
  have hkey₁ : Keyed (fun r => r.taskId) (requeueStaleProcessing restart z now t).1 := hkey.updateWhere fun _ _ => rfl
  rcases hrec [] (by simp) r hr₁ with hq | hterm | ⟨w, -, r', hr', hid, hterm⟩
  · rw [hst] at hq
    cases hq
  · rw [hst] at hterm
    cases hterm
  · rcases mem_sweep hr' with hr' | ⟨r₀, hr₀, hp, hid₀, -⟩
    · rw [hkey₁.eq_of_key hr' hr₁ hid, hst] at hterm
      cases hterm
    · rw [hkey₁.eq_of_key hr₀ hr₁ (hid₀.symm.trans hid), hst] at hp
      cases hp

/-! ## Main result -/

/-- **Crash recovery.** Crash after any run of the operations, restart with any zombie threshold: the restart and the
sweeps strand no row exactly when no row was `cancelling` at the crash. -/
theorem recovered_iff_noneCancelling (wc : String → Option String) (tasks : Tasks)
    (hkey : Keyed (fun r => r.taskId) tasks) (ops : List Op) (s : State)
    (hrun : run (step wc) ⟨tasks, []⟩ ops = some s) (zombieHours restart now : Int) :
    Recovered zombieHours restart (requeueStaleProcessing restart zombieHours now s.tasks).1 ↔
      ∀ r ∈ s.tasks, r.status ≠ .cancelling := by
  constructor
  · intro hrec r hr hst
    exact not_recovered_of_cancelling (inv_of_run hkey hrun).keyed hr hst now hrec
  · intro hnone ws _ r hr
    obtain ⟨hcancelling, hold⟩ := recoverable_sweepAll ws (recoverable_requeue hnone now) r hr
    cases hst : r.status with
    | queued => exact .inl rfl
    | cancelling => exact absurd hst hcancelling
    | completed | failed | cancelled => exact .inr (.inl rfl)
    | processing =>
      refine .inr (.inr ⟨.zombies restart now, le_refl _, _, mem_sweepProcessing hr hst ?_, rfl, rfl⟩)
      exact decide_eq_true (hold hst)

def diedInFlight : List Op :=
  [.createTask "t" 1 blankTask, .markProcessing "t" 1 2, .createTask "u" 3 { blankTask with taskId := "u" }]

theorem recovered_diedInFlight : ∃ s, run (step fun _ => none) ⟨[], []⟩ diedInFlight = some s ∧
    (∃ r ∈ s.tasks, r.status = .processing) ∧ Recovered 24 100000 (requeueStaleProcessing 100000 24 5 s.tasks).1 := by
  have h : (run (step fun _ => none) ⟨[], []⟩ diedInFlight).any (fun s =>
      s.tasks.any (fun r => r.status == .processing) && s.tasks.all fun r => r.status != .cancelling) = true := by
    decide +kernel
  obtain ⟨s, hs, h⟩ := (Option.any_eq_true _ _).mp h
  simp only [Bool.and_eq_true, List.any_eq_true, beq_iff_eq, List.all_eq_true, bne_iff_ne] at h
  refine ⟨s, hs, h.1, ?_⟩
  exact (recovered_iff_noneCancelling (fun _ => none) [] Keyed.nil diedInFlight s hs 24 100000 5).mpr h.2

def diedCancelling : List Op :=
  [.createTask "t" 1 blankTask, .markProcessing "t" 1 2, .requestCancel "t" 3]

theorem cancelling_stranded : ¬ (∀ (ops : List Op) (s : State), run (step fun _ => none) ⟨[], []⟩ ops = some s →
    ∀ zombieHours restart now,
      Recovered zombieHours restart (requeueStaleProcessing restart zombieHours now s.tasks).1) := by
  intro hall
  have h : (run (step fun _ => none) ⟨[], []⟩ diedCancelling).any
      (fun s => s.tasks.any fun r => r.status == .cancelling) = true := by
    decide +kernel
  obtain ⟨s, hs, h⟩ := (Option.any_eq_true _ _).mp h
  simp only [List.any_eq_true, beq_iff_eq] at h
  obtain ⟨r, hr, hst⟩ := h
  exact not_recovered_of_cancelling (inv_of_run Keyed.nil hs).keyed hr hst 5 (hall diedCancelling s hs 24 100000 5)

end Cortrix.Async.StatusMachine
