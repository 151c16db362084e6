import Cortrix.Store.Phnsw.SteadyRuns

/-!
# Index recovery is exact in steady runs

What a recovery must rebuild is the effect, in order, of some prefix of the records submitted in each life of
the process, with every acknowledged record among them.

* `recovery_exact` : in steady runs every reopening succeeds and rebuilds such a map;
* `acked_point_lost` : a record counted by no header, a snapshot, and the next acknowledged record is gone.
-/

namespace Cortrix.Store.Phnsw.PHnsw
open Lib

variable {cfg : Config} {s s' : State} {a : Act}

/-! ## Written and acknowledged -/

/-- The records of the batch under way that are in the file. -/
def Pc.written : Pc → List WalEntry
  | .records done _ => done
  | .header batch => batch
  | .sync batch => batch
  | .apply _ batch => batch
  | _ => []

def Process.written : Process → List WalEntry
  | .up p => p.pc.written
  | .down _ => []

/-- What one step does to the history, the acknowledged records and the batch under way. -/
inductive Trace (s : State) (a : Act) (s' : State) : Prop
  | same (hhist : s'.history = s.history) (hacked : s'.acked = s.acked)
      (hwritten : s'.process.written = s.process.written)
  | wrote (e : WalEntry) (hhist : s'.history = s.history ++ [e]) (hacked : s'.acked = s.acked)
      (hwritten : s'.process.written = s.process.written ++ [e])
  | acked (hhist : s'.history = s.history) (hacked : s'.acked = s.acked ++ s.process.written)
      (hwritten : s'.process.written = [])
  | crashed (ha : a = .crash) (hhist : s'.history = s.history) (hacked : s'.acked = s.acked)
      (hwritten : s'.process.written = [])

/-- Under the invariant a batch in the file is acknowledged or cut off by a crash. -/
theorem Inv.trace (h : Inv cfg s) (hstep : PHnsw.step cfg s a = some s') : Trace s a s' := by
  obtain ⟨b, -, hup⟩ := h
  cases step_next hstep with
  | openFailed => exact .same rfl rfl rfl
  | recoveryFailed hp | opened hp | submitted hp => exact .same rfl rfl (by rw [hp]; rfl)
  | notRecovered => exact .same rfl rfl rfl
  | recovered hp hpc => exact .same rfl rfl (by simp [hp, Process.written, hpc])
  | flushed hp hpc | saving hp hpc | counted hp hpc | headed hp hpc | synced hp hpc | applied hp hpc
  | committed hp hpc | cleaned hp hpc | truncated hp hpc | truncatedHeader hp hpc | snapshotted hp hpc =>
    exact .same rfl rfl (by simp [hp, Process.written, hpc, Pc.written])
  | record hp hpc => exact .wrote _ rfl rfl (by simp [hp, Process.written, hpc, Pc.written])
  | unreadable hp hpc herr =>
    obtain ⟨hread, -⟩ := (hup _ hp).applied hpc s.process
    rw [hread] at herr
    cases herr
  | acknowledged hp hpc => exact .acked rfl (by simp [hp, Process.written, hpc, Pc.written]) rfl
  | crashed hp => exact .crashed rfl rfl rfl rfl

/-- Since `t`: the records acknowledged are among those written, in order. -/
def Since (t s : State) : Prop :=
  ∃ recs acks, s.history = t.history ++ recs ∧ s.acked = t.acked ++ acks ∧
    (acks ++ s.process.written).Sublist recs

/-- Since `t`: the records written are those acknowledged and those of the batch under way. -/
def SinceExactly (t s : State) : Prop :=
  ∃ acks, s.history = t.history ++ (acks ++ s.process.written) ∧ s.acked = t.acked ++ acks

theorem Since.step {t : State} (h : Since t s) (hstep : Trace s a s') : Since t s' := by
  obtain ⟨recs, acks, hhist, hacked, hsub⟩ := h
  cases hstep with
  | same hhist' hacked' hwritten => exact ⟨recs, acks, hhist'.trans hhist, hacked'.trans hacked, by rwa [hwritten]⟩
  | wrote e hhist' hacked' hwritten =>
    refine ⟨recs ++ [e], acks, ?_, hacked'.trans hacked, ?_⟩
    · rw [hhist', hhist, List.append_assoc]
    · rw [hwritten, ← List.append_assoc]
      exact hsub.append (List.Sublist.refl _)
  | acked hhist' hacked' hwritten =>
    refine ⟨recs, acks ++ s.process.written, hhist'.trans hhist, ?_, ?_⟩
    · rw [hacked', hacked, List.append_assoc]
    · rw [hwritten, List.append_nil]
      exact hsub
  | crashed _ hhist' hacked' hwritten =>
    refine ⟨recs, acks, hhist'.trans hhist, hacked'.trans hacked, ?_⟩
    rw [hwritten, List.append_nil]
    exact (List.sublist_append_left _ _).trans hsub

theorem SinceExactly.step {t : State} (h : SinceExactly t s) (hstep : Trace s a s')
    (hquiet : a = .crash → s.process.written = []) : SinceExactly t s' := by
  obtain ⟨acks, hhist, hacked⟩ := h
  cases hstep with
  | same hhist' hacked' hwritten => exact ⟨acks, by rw [hhist', hhist, hwritten], hacked'.trans hacked⟩
  | wrote e hhist' hacked' hwritten =>
    refine ⟨acks, ?_, hacked'.trans hacked⟩
    rw [hhist', hhist, hwritten, List.append_assoc, List.append_assoc]
  | acked hhist' hacked' hwritten =>
    refine ⟨acks ++ s.process.written, ?_, ?_⟩
    · rw [hhist', hhist, hwritten, List.append_nil]
    · rw [hacked', hacked, List.append_assoc]
  | crashed ha hhist' hacked' hwritten =>
    refine ⟨acks, ?_, hacked'.trans hacked⟩
    rw [hhist', hhist, hquiet ha, hwritten]

/-! ## Submitted and written -/

/-- What of this life's submitted records is not in the file yet. -/
def Process.waiting : Process → List WalEntry
  | .up p => p.pc.unwritten ++ p.queue
  | .down _ => []

/-- The history is a prefix of what was submitted in each life of the process, one after another; between two
lives nothing is submitted. -/
def Submissions (s : State) : Prop :=
  (∀ image, s.process = .down image → s.submitted = []) ∧
    ∃ cuts done, List.Forall₂ (· <+: ·) cuts s.past ∧ s.history = cuts.flatten ++ done ∧
      s.submitted = done ++ s.process.waiting

theorem submissions_init : Submissions init := ⟨fun _ _ => rfl, [], [], .nil, rfl, rfl⟩

theorem Submissions.step (h : Submissions s) (hstep : PHnsw.step cfg s a = some s') : Submissions s' := by
  obtain ⟨hdown, cuts, done, hcuts, hhist, hsub⟩ := h
  -- steps of a process that touch neither the queue nor the records of the batch
  have hkeep : ∀ {t : State} {p : Running}, t.process = .up p → t.past = s.past → t.history = s.history →
      t.submitted = s.submitted → t.process.waiting = s.process.waiting → Submissions t := by
    intro t p hp hpast hhist' hsub' hwait
    refine ⟨fun image himage => ?_, cuts, done, hpast ▸ hcuts, hhist'.trans hhist, by rw [hsub', hsub, hwait]⟩
    rw [hp] at himage
    cases himage
  cases step_next hstep with
  | openFailed => exact ⟨hdown, cuts, done, hcuts, hhist, hsub⟩
  | recoveryFailed hp => exact ⟨fun _ _ => hdown _ hp, cuts, done, hcuts, hhist, by rw [hsub, hp]; rfl⟩
  | opened hp => exact hkeep rfl rfl rfl rfl (by rw [hp]; rfl)
  | notRecovered => exact ⟨hdown, cuts, done, hcuts, hhist, hsub⟩
  | recovered hp hpc => exact hkeep rfl rfl rfl rfl (by simp [hp, Process.waiting, hpc])
  | submitted hp =>
    refine ⟨(by intro _ hi; cases hi), cuts, done, hcuts, hhist, ?_⟩
    simp [submit, hsub, hp, Process.waiting]
  | @flushed p hp hpc n _ =>
    refine ⟨(by intro _ hi; cases hi), cuts, done, hcuts, hhist, ?_⟩
    simp [hsub, hp, hpc, Process.waiting, Pc.unwritten]
  | saving hp hpc | counted hp hpc | headed hp hpc | synced hp hpc | applied hp hpc | unreadable hp hpc
  | acknowledged hp hpc | committed hp hpc | cleaned hp hpc | truncated hp hpc | truncatedHeader hp hpc
  | snapshotted hp hpc => exact hkeep rfl rfl rfl rfl (by simp [hp, Process.waiting, hpc, Pc.unwritten])
  | @record p hp _ rest e hpc =>
    refine ⟨(by intro _ hi; cases hi), cuts, done ++ [e], hcuts, by rw [hhist, List.append_assoc], ?_⟩
    simp [hsub, hp, hpc, Process.waiting, Pc.unwritten]
  | crashed hp =>
    -- what this life wrote is cut off from what it submitted
    refine ⟨fun _ _ => rfl, cuts ++ [done], [], ?_, ?_, rfl⟩
    · refine List.rel_append hcuts (.cons ?_ .nil)
      rw [hsub]
      exact List.prefix_append _ _
    · rw [hhist, List.flatten_append]
      simp

/-! ## Recovery -/

theorem Inv.reopen (h : Inv cfg s) {image : Bytes} (hdown : s.process = .down image) :
    ∃ r, reopen cfg image s.files = .ok r ∧
      r.index = Graph.empty.applyAll cfg.maxElements s.history := by
  obtain ⟨b, hdisk, -⟩ := h
  obtain ⟨w, r, hopen, hr, -, -, -, -, hindex, -⟩ := (hdisk _ hdown).opened
  refine ⟨r, ?_, ?_⟩
  · rw [PHnsw.reopen, hopen]
    exact hr
  · rw [hindex]
    exact stateAt_length

/-- **Exact recovery.** In a steady run, every reopening succeeds, and the live map is that of some prefix of the
records submitted in each life of the process that contains every acknowledged record. -/
theorem recovery_exact {acts : List Act} {image : Bytes} (hq : Along (step cfg) (Steady cfg) init acts)
    (hrun : run (step cfg) init acts = some s) (hdown : s.process = .down image) :
    ∃ r cuts, reopen cfg image s.files = .ok r ∧ List.Forall₂ (· <+: ·) cuts s.past ∧
      s.acked.Sublist cuts.flatten ∧
      r.index.live = (Graph.empty.applyAll cfg.maxElements cuts.flatten).live := by
  obtain ⟨hinv, hsince, hnone, cuts, done, hcuts, hhist, hsub⟩ : Inv cfg s ∧ Since init s ∧ Submissions s :=
    run_inv (I := fun s => Inv cfg s ∧ Since init s ∧ Submissions s)
      (fun h hq hstep => ⟨h.1.step hq hstep, h.2.1.step (h.1.trace hstep), h.2.2.step hstep⟩)
      ⟨inv_init cfg, ⟨[], [], rfl, rfl, List.Sublist.refl _⟩, submissions_init⟩ hq hrun
  obtain ⟨r, hr, hindex⟩ := hinv.reopen hdown
  obtain ⟨recs, acks, hrecs, hacks, hsublist⟩ := hsince
  have hdone : done = [] := by
    rw [hnone _ hdown] at hsub
    exact (List.append_eq_nil_iff.mp hsub.symm).1
  have hcutsHist : s.history = cuts.flatten := by rw [hhist, hdone, List.append_nil]
  refine ⟨r, cuts, hr, hcuts, ?_, ?_⟩
  · rw [← hcutsHist, hrecs, hacks]
    exact (List.sublist_append_left _ _).trans hsublist
  · rw [hindex, hcutsHist]

/-! ## Runs of a small index -/

def smallConfig (keep : Int) : Config := ⟨1, 8, keep, by decide⟩

def flushed (n : Nat) : List Act := .flush n :: List.replicate (2 * n + 4) .advance

def snapshotted (ts : UInt64) : List Act := .snapshot ts 0 :: List.replicate 5 .advance

/-- What opening the index again gives, when the process is down and the recovery succeeds. -/
def reopened (cfg : Config) (s : State) : Option Recovered :=
  match s.process with
  | .down image => (reopen cfg image s.files).toOption
  | .up _ => none

theorem reopened_eq_some {r : Recovered} (h : reopened cfg s = some r) :
    ∃ image, s.process = .down image ∧ reopen cfg image s.files = .ok r := by
  unfold reopened at h
  split at h
  · exact ⟨_, ‹_›, toOption_eq_some.mp h⟩
  · cases h

theorem exists_reopened {t : State} {acts : List Act} {check : State → Recovered → Bool}
    (h : (run (step cfg) t acts).any (fun s => (reopened cfg s).any (check s)) = true) :
    ∃ s image r, run (step cfg) t acts = some s ∧ s.process = .down image ∧
      reopen cfg image s.files = .ok r ∧ check s r = true := by
  obtain ⟨s, hrun, hs⟩ := Option.any_eq_true _ _ |>.mp h
  obtain ⟨r, hr, hcheck⟩ := Option.any_eq_true _ _ |>.mp hs
  obtain ⟨image, himage, hopen⟩ := reopened_eq_some hr
  exact ⟨s, image, r, hrun, himage, hopen, hcheck⟩

/-- A record acknowledged, a snapshot, and a crash right after the next record is written. -/
def writtenNotCounted : List Act :=
  [.open_, .addPoint 1 [7] 0] ++ flushed 1 ++ snapshotted 10 ++ [.addPoint 2 [9] 0, .flush 1, .advance, .crash]

/-- The unacknowledged record is there after the reopening. -/
theorem recovery_exact_writtenNotCounted :
    ∃ s image, run (step (smallConfig 1)) init writtenNotCounted = some s ∧ s.process = .down image ∧
      ∃ r cuts, reopen (smallConfig 1) image s.files = .ok r ∧ List.Forall₂ (· <+: ·) cuts s.past ∧
        s.acked.Sublist cuts.flatten ∧
        r.index.live = (Graph.empty.applyAll (smallConfig 1).maxElements cuts.flatten).live := by
  have hsteady : Along (step (smallConfig 1)) (Steady (smallConfig 1)) init writtenNotCounted := by decide +kernel
  have hreopened : (run (step (smallConfig 1)) init writtenNotCounted).any (fun s =>
      (reopened (smallConfig 1) s).any fun r => r.index.live 2 == some [9]) = true := by decide +kernel
  obtain ⟨s, image, -, hrun, himage, -⟩ := exists_reopened hreopened
  exact ⟨s, image, hrun, himage, recovery_exact hsteady hrun himage⟩

/-- A crash between a record and the header, a snapshot of the recovered index, and one more record. -/
def countedLate : List Act :=
  [.open_, .addPoint 1 [7] 0, .flush 1, .advance, .crash, .open_] ++ snapshotted 10 ++ [.addPoint 2 [9] 0] ++
    flushed 1 ++ [.crash]

/-- The header counts one record less than the snapshot holds, so the acknowledged record is taken for one that the
snapshot has: no prefixes of the submitted records that contain it give the map recovered. -/
theorem acked_point_lost :
    ∃ s image r, run (step (smallConfig 1)) init countedLate = some s ∧ s.process = .down image ∧
      reopen (smallConfig 1) image s.files = .ok r ∧
      ∀ cuts, List.Forall₂ (· <+: ·) cuts s.past → s.acked.Sublist cuts.flatten →
        r.index.live ≠ (Graph.empty.applyAll (smallConfig 1).maxElements cuts.flatten).live := by
  have hlost : (run (step (smallConfig 1)) init countedLate).any (fun s =>
      (reopened (smallConfig 1) s).any fun r => r.index.live 2 == none && s.acked == [⟨.insert, 0, 2, [9]⟩] &&
        s.past == [[⟨.insert, 0, 1, [7]⟩], [⟨.insert, 0, 2, [9]⟩]]) = true := by decide +kernel
  obtain ⟨s, image, r, hrun, himage, hr, hs⟩ := exists_reopened hlost
  simp only [Bool.and_eq_true, beq_iff_eq] at hs
  obtain ⟨⟨hlive, hacked⟩, hpast⟩ := hs
  refine ⟨s, image, r, hrun, himage, hr, fun cuts hcuts hsub heq => ?_⟩
  rw [hpast] at hcuts
  obtain ⟨c1, _, h1, htail, rfl⟩ := List.forall₂_cons_right_iff.mp hcuts
  obtain ⟨c2, _, h2, hnil, rfl⟩ := List.forall₂_cons_right_iff.mp htail
  obtain rfl := List.forall₂_nil_right_iff.mp hnil
  have h1 : c1 = [] ∨ c1 = [⟨.insert, 0, 1, [7]⟩] := by simpa [List.prefix_cons_iff] using h1
  have h2 : c2 = [] ∨ c2 = [⟨.insert, 0, 2, [9]⟩] := by simpa [List.prefix_cons_iff] using h2
  rw [hacked] at hsub
  rw [heq] at hlive
  rcases h1 with rfl | rfl <;> rcases h2 with rfl | rfl
  · exact absurd hsub (by decide)
  · exact absurd hlive (by decide)
  · exact absurd hsub (by decide)
  · exact absurd hlive (by decide)

end Cortrix.Store.Phnsw.PHnsw
