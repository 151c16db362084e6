import Cortrix.Store.Phnsw.RecoveryExact

/-!
# A snapshot that returned Ok

Once `Snapshot` has returned, its graph and the records written since are what a recovery must rebuild, however
the clock read.

* `snapshot_safe` : in steady runs it does; the records acknowledged since are among those written since, and are
  all of them when no crash cuts off a batch (`Quiet`);
* `snapshot_lost` : a clock that jumped back between two snapshots makes `CleanOldSnapshots` delete the one just
  saved, and the truncation of the log then drops what only it held.
-/

namespace Cortrix.Store.Phnsw.PHnsw
open Lib

variable {cfg : Config} {s u : State} {p : Running}

/-- No batch is under way at a crash. -/
def Quiet (s : State) (a : Act) : Prop := a = .crash → s.process.written = []

theorem sinceExactly_of_quiet (hinv : Inv cfg u) (hwritten : u.process.written = []) {post : List Act}
    (hq : Along (step cfg) (Steady cfg) u post) (hquiet : Along (step cfg) Quiet u post)
    (hrun : run (step cfg) u post = some s) : SinceExactly u s := by
  have hboth : Along (step cfg) (fun s a => Steady cfg s a ∧ Quiet s a) u post := hq.and hquiet
  refine (run_inv (I := fun s => Inv cfg s ∧ SinceExactly u s)
    (fun h hq hstep => ⟨h.1.step hq.1 hstep, h.2.step (h.1.trace hstep) hq.2⟩)
    ⟨hinv, [], ?_, ?_⟩ hboth hrun).2
  · simp [hwritten]
  · simp

/-- **A successful snapshot is safe.** The lock's holder in `u` is about to return Ok from `Snapshot`. In a steady
run, after any later crash the index reopens with the graph of that moment and the records written since; the
records acknowledged since are among them, and are all of them when no crash cuts off a batch. -/
theorem snapshot_safe {pre post : List Act} {image : Bytes}
    (hq : Along (step cfg) (Steady cfg) init (pre ++ post)) (hpre : run (step cfg) init pre = some u)
    (hp : u.process = .up p) (hpc : p.pc = .truncateSync) (hpost : run (step cfg) u post = some s)
    (hdown : s.process = .down image) :
    ∃ r recs acks, reopen cfg image s.files = .ok r ∧ s.history = u.history ++ recs ∧
      s.acked = u.acked ++ acks ∧ r.index.live = (p.index.applyAll cfg.maxElements recs).live ∧
      acks.Sublist recs ∧ (Along (step cfg) Quiet u post → recs = acks) := by
  obtain ⟨hqpre, hqpost⟩ := along_append.mp hq
  have hqpost := hqpost u hpre
  have hinv := inv_of_run hqpre hpre
  have hwritten : u.process.written = [] := by simp [hp, Process.written, hpc, Pc.written]
  obtain ⟨hinv', recs, acks, hhist, hacked, hsub⟩ : Inv cfg s ∧ Since u s :=
    run_inv (I := fun s => Inv cfg s ∧ Since u s)
      (fun h hq hstep => ⟨h.1.step hq hstep, h.2.step (h.1.trace hstep)⟩)
      ⟨hinv, [], [], by simp, by simp, by simp [hwritten]⟩ hqpost hpost
  obtain ⟨r, hr, hindex⟩ := hinv'.reopen hdown
  refine ⟨r, recs, acks, hr, hhist, hacked, ?_, (List.sublist_append_left _ _).trans hsub, fun hquiet => ?_⟩
  · -- the graph in memory is the one of the history so far
    obtain ⟨b, -, hup⟩ := hinv
    have h := hup p hp
    have hsnap : p.index = Graph.empty.applyAll cfg.maxElements u.history := by
      rw [h.index_eq, h.applied_eq (by rw [hpc]; rfl)]
      exact stateAt_length
    rw [hindex, hhist, hsnap, Graph.applyAll, Graph.applyAll, Graph.applyAll, List.foldl_append]
  · obtain ⟨acks', hhist', hacked'⟩ := sinceExactly_of_quiet hinv hwritten hqpost hquiet hpost
    have hnone : s.process.written = [] := by rw [hdown]; rfl
    rw [hnone, List.append_nil, hhist] at hhist'
    rw [hacked] at hacked'
    rw [List.append_cancel_left hhist', List.append_cancel_left hacked']

theorem exists_returning {pre : List Act} {check : State → Running → Bool}
    (h : (run (step cfg) init pre).any (fun u => match u.process with
      | .up p => decide (p.pc = .truncateSync) && check u p
      | .down _ => false) = true) :
    ∃ u p, run (step cfg) init pre = some u ∧ u.process = .up p ∧ p.pc = .truncateSync ∧ check u p = true := by
  obtain ⟨u, hu, hcheck⟩ := Option.any_eq_true _ _ |>.mp h
  split at hcheck
  · rename_i p hp
    simp only [Bool.and_eq_true, decide_eq_true_eq] at hcheck
    exact ⟨u, p, hu, hp, hcheck.1, hcheck.2⟩
  · cases hcheck

def savedAt (ts : UInt64) : List Act :=
  [.open_, .addPoint 1 [7] 0] ++ flushed 1 ++ .snapshot ts 0 :: List.replicate 4 .advance

/-- `Snapshot` returns, one more record is acknowledged, and the process crashes. -/
def ackedAfter : List Act := .advance :: .addPoint 2 [9] 0 :: flushed 1 ++ [.crash]

theorem snapshot_safe_ackedAfter :
    ∃ u p s image, run (step (smallConfig 1)) init (savedAt 10) = some u ∧ u.process = .up p ∧
      p.pc = .truncateSync ∧ run (step (smallConfig 1)) u ackedAfter = some s ∧ s.process = .down image ∧
      ∃ r recs acks, reopen (smallConfig 1) image s.files = .ok r ∧ s.history = u.history ++ recs ∧
        s.acked = u.acked ++ acks ∧ r.index.live = (p.index.applyAll (smallConfig 1).maxElements recs).live ∧
        acks.Sublist recs ∧ (Along (step (smallConfig 1)) Quiet u ackedAfter → recs = acks) := by
  have hsteady : Along (step (smallConfig 1)) (Steady (smallConfig 1)) init (savedAt 10 ++ ackedAfter) := by
    decide +kernel
  have hreturning : (run (step (smallConfig 1)) init (savedAt 10)).any (fun u => match u.process with
      | .up p => decide (p.pc = .truncateSync) && (run (step (smallConfig 1)) u ackedAfter).any (fun s =>
          (reopened (smallConfig 1) s).any fun r => r.index.live 2 == some [9])
      | .down _ => false) = true := by decide +kernel
  obtain ⟨u, p, hu, hp, hpc, hafter⟩ := exists_returning hreturning
  obtain ⟨s, image, -, hs, himage, -⟩ := exists_reopened hafter
  exact ⟨u, p, s, image, hu, hp, hpc, hs, himage, snapshot_safe hsteady hu hp hpc hs himage⟩

/-- A snapshot at clock 10, one more record, and a snapshot at clock 5 about to return. -/
def clockBack : List Act :=
  [.open_, .addPoint 1 [7] 0] ++ flushed 1 ++ snapshotted 10 ++ [.addPoint 2 [9] 0] ++ flushed 1 ++
    .snapshot 5 0 :: List.replicate 4 .advance

/-- `Snapshot` returns Ok with the acknowledged point in its graph; after the next crash the point is gone, with
nothing written or acknowledged in between. -/
theorem snapshot_lost :
    ∃ u p s image r, run (step (smallConfig 1)) init clockBack = some u ∧ u.process = .up p ∧
      p.pc = .truncateSync ∧ run (step (smallConfig 1)) u [.advance, .crash] = some s ∧
      s.process = .down image ∧ reopen (smallConfig 1) image s.files = .ok r ∧
      s.history = u.history ∧ s.acked = u.acked ∧ p.index.live 2 = some [9] ∧ r.index.live 2 = none := by
  have hreturning : (run (step (smallConfig 1)) init clockBack).any (fun u => match u.process with
      | .up p => decide (p.pc = .truncateSync) && (p.index.live 2 == some [9] &&
          (run (step (smallConfig 1)) u [.advance, .crash]).any (fun s => (reopened (smallConfig 1) s).any fun r =>
            s.history == u.history && s.acked == u.acked && r.index.live 2 == none))
      | .down _ => false) = true := by decide +kernel
  obtain ⟨u, p, hu, hp, hpc, hcheck⟩ := exists_returning hreturning
  simp only [Bool.and_eq_true, beq_iff_eq] at hcheck
  obtain ⟨hlive, hafter⟩ := hcheck
  obtain ⟨s, image, r, hs, himage, hr, hlost⟩ := exists_reopened hafter
  simp only [Bool.and_eq_true, beq_iff_eq] at hlost
  exact ⟨u, p, s, image, r, hu, hp, hpc, hs, himage, hr, hlost.1.1, hlost.1.2, hlive, hlost.2⟩

end Cortrix.Store.Phnsw.PHnsw
