import Cortrix.Store.Phnsw.RecoveryExact

/-!
# Holes between a snapshot and the log

`Load` falls back to an older snapshot when a newer one fails its checksum, but the log was truncated up to the
newest one. The replay then starts behind the records in between, and `RecoverInternal` returns Ok.

* `Corrupted files files'` : some `.index` files no longer match their footers;
* `NoHole hist r` : the snapshot reaches the base of the log, every record behind it is replayed, and `applied_lsn_`
  ends at `committed_lsn`;
* `noHole_iff` : after a steady run, exactly when a successful recovery has no hole;
* `older_snapshot_hole` : the newer of two snapshots is corrupt and an acknowledged point is gone.
-/

namespace Cortrix.Store.Phnsw.PHnsw
open Lib
open SnapshotManager
open WalWriter (walImage scanRecords)

variable {cfg : Config} {s : State} {hist : List WalEntry} {b : Nat}

/-- An `.index` file as it was, or one whose checksum fails. -/
def Corruption (f f' : SnapshotFile) : Prop :=
  f'.timestamp = f.timestamp ∧ f'.footer = f.footer ∧
    (f'.index = f.index ∨ ∀ m ∈ f.footer, f'.index.checksum ≠ m.checksum)

def Corrupted (files files' : List SnapshotFile) : Prop := List.Forall₂ Corruption files files'

/-- The snapshot that was loaded reaches the base of the log, and the rest of the history was replayed on it. -/
structure NoHole (hist : List WalEntry) (r : Recovered) : Prop where
  base_le : r.wal.committedLsn - r.wal.entryCount ≤ r.snapshotLsn
  replayed_eq : r.replayed = hist.drop r.snapshotLsn.toNat
  applied_eq : r.appliedLsn = r.wal.committedLsn

/-- The snapshot `Load` will settle on reaches the base of the log and the header counts every record; with
snapshots none of which loads there is nothing to ask. -/
def Reaches (cfg : Config) (image : Bytes) (files : List SnapshotFile) : Prop :=
  match (listSnapshotsNewestFirst files).findSome? loaded with
  | some (_, lsn) => headerEntryCount image = (scanRecords cfg.dim image).1.length ∧
      logBase image ≤ lsn.toNat
  | none => (∃ f ∈ files, f.footer.isSome) ∨ headerEntryCount image = (scanRecords cfg.dim image).1.length

theorem Corruption.loaded_eq {f f' : SnapshotFile} (h : Corruption f f') {x : Graph × UInt64}
    (hload : loaded f' = some x) : loaded f = some x := by
  obtain ⟨-, hfooter, hindex⟩ := h
  rcases hindex with hindex | hbad
  · rwa [loaded, hfooter, hindex] at hload
  · unfold loaded at hload
    obtain ⟨m, hm, hload⟩ := Option.bind_eq_some_iff.mp hload
    rw [hfooter] at hm
    rw [if_neg (hbad m hm)] at hload
    cases hload

theorem Corrupted.exists_of_mem {files files' : List SnapshotFile} (h : Corrupted files files') {f' : SnapshotFile}
    (hf' : f' ∈ files') : ∃ f ∈ files, Corruption f f' := by
  induction h with
  | nil => cases hf'
  | cons head _ ih =>
    rcases List.mem_cons.mp hf' with rfl | hf'
    · exact ⟨_, by simp, head⟩
    · obtain ⟨f, hf, hc⟩ := ih hf'
      exact ⟨f, by simp [hf], hc⟩

theorem Corrupted.footers_eq {files files' : List SnapshotFile} (h : Corrupted files files') :
    files'.map (·.footer) = files.map (·.footer) := by
  induction h with
  | nil => rfl
  | cons head _ ih => rw [List.map_cons, List.map_cons, ih, head.2.1]

theorem Corrupted.latest_zero {files files' : List SnapshotFile} (h : Corrupted files files')
    (hnone : ∀ f ∈ files', f.footer = none) : latestSnapshotLsn files = 0 := by
  have hfooters : ∀ f ∈ files, f.footer = none := by
    intro f hf
    have hmem : f.footer ∈ files'.map (·.footer) := by
      rw [h.footers_eq]
      exact List.mem_map_of_mem hf
    obtain ⟨f', hf', heq⟩ := List.mem_map.mp hmem
    rw [← heq]
    exact hnone f' hf'
  have hlatest : latestFooter files = none :=
    List.findSome?_eq_none_iff.mpr fun f hf => hfooters f (mem_listSnapshots.mp hf)
  rw [latestSnapshotLsn, hlatest]
  rfl

theorem noHole_iff_of_loaded {w : WalWriter} {r : Recovered} {lsn : UInt64}
    (hlog : Log cfg hist b w.image w.entryCount w.committedLsn) (hroom : hist.length < 2 ^ 64)
    (hlsn : lsn.toNat ≤ hist.length) (hwal : r.wal = w) (hsnap : r.snapshotLsn = lsn)
    (hreplayed : r.replayed = behind b lsn.toNat (hist.drop b))
    (happlied : r.appliedLsn = lsn + UInt64.ofNat r.replayed.length) :
    NoHole hist r ↔ w.entryCount.toNat = hist.length - b ∧ b ≤ lsn.toNat := by
  have hb := base_eq hlog.lsn_eq
  have hcounts := hlog.counts
  have hwlsn := hlog.lsn_eq
  have hlen : r.replayed.length = hist.length - b - (lsn.toNat - b) := by
    rw [hreplayed, behind, List.length_drop, List.length_drop]
  have happ : r.appliedLsn.toNat = lsn.toNat + r.replayed.length := by
    rw [happlied]
    exact toNat_add_ofNat (by omega)
  constructor
  · intro h
    have hle := h.base_le
    rw [UInt64.le_iff_toNat_le, hwal, hsnap, hb] at hle
    have heq := congrArg UInt64.toNat h.applied_eq
    rw [hwal] at heq
    exact ⟨by omega, hle⟩
  · rintro ⟨hcount, hle⟩
    refine ⟨?_, ?_, UInt64.toNat_inj.mp ?_⟩
    · rw [UInt64.le_iff_toNat_le, hwal, hsnap, hb]
      exact hle
    · rw [hreplayed, hsnap, behind_drop hle]
    · rw [hwal]
      omega

theorem noHole_iff_of_load {w : WalWriter} {files : List SnapshotFile} {loaded : Option (Graph × UInt64)}
    (hlog : Log cfg hist b w.image w.entryCount w.committedLsn) (hroom : hist.length < 2 ^ 64)
    (hread : w.readAll cfg.dim = (hist.drop b, w)) (hload : load files = .ok loaded) {lsn : UInt64}
    (hlsn : (loaded.map (·.2)).getD 0 = lsn) (hle : lsn.toNat ≤ hist.length) :
    (∀ r, recoverInternal cfg w files = .ok r → NoHole hist r) ↔
      w.entryCount.toNat = hist.length - b ∧ b ≤ lsn.toNat := by
  have hb := base_eq hlog.lsn_eq
  have hwrap : (w.committedLsn - w.entryCount).toNat + (hist.drop b).length < 2 ^ 64 := by
    have := hlog.base_le
    rw [hb, List.length_drop]
    omega
  obtain ⟨r, hr, hwal, hsnap, hreplayed, -, happlied⟩ := recoverInternal_eq hload hread hwrap
  rw [hlsn] at hsnap
  rw [hsnap, hb] at hreplayed
  rw [hsnap] at happlied
  rw [hr, ← noHole_iff_of_loaded hlog hroom hle hwal hsnap hreplayed happlied]
  simp

/-- **Recovery over a hole.** After a steady run, with any of the `.index` files corrupted: a recovery that returns
Ok has no hole exactly when the snapshot it settles on reaches the base of the log and the header counts every
record, or no snapshot can be loaded and it returns an error. -/
theorem noHole_iff {acts : List Act} {image : Bytes} {files : List SnapshotFile}
    (hq : Along (step cfg) (Steady cfg) init acts) (hrun : run (step cfg) init acts = some s)
    (hdown : s.process = .down image) (hcorrupt : Corrupted s.files files) :
    (∀ r, reopen cfg image files = .ok r → NoHole s.history r) ↔ Reaches cfg image files := by
  obtain ⟨b, hdisk, -⟩ := inv_of_run hq hrun
  have h := hdisk image hdown
  obtain ⟨hbase, hrecords, w, hopen, -, htrust, hlog, hcount⟩ := h.fields
  have hopened : reopen cfg image files = recoverInternal cfg w files := by rw [reopen, hopen]
  have hread := WalWriter.readAll_walImage hlog.image_eq cfg.dim_pos htrust
    fun e he => h.loggable e (List.mem_of_mem_drop he)
  rw [Reaches, hrecords, List.length_drop, hcount, hopened]
  have hload := load_eq files
  split at hload
  · rename_i x hfind
    rw [hfind]
    obtain ⟨f', hf', hx⟩ := List.exists_of_findSome?_eq_some hfind
    obtain ⟨f, hf, hc⟩ := hcorrupt.exists_of_mem (mem_listSnapshots.mp hf')
    have hxf := hc.loaded_eq hx
    obtain ⟨m, hm, -⟩ := Option.bind_eq_some_iff.mp hxf
    obtain ⟨hle, hfaithful⟩ := h.files f hf m hm
    rw [hxf] at hfaithful
    cases hfaithful
    rw [noHole_iff_of_load hlog h.room hread hload rfl hle, hbase]
    rfl
  · rename_i hfind
    rw [hfind]
    simp only
    by_cases hany : ∃ f ∈ files, f.footer.isSome
    · have hanyList : (listSnapshotsNewestFirst files).any (·.footer.isSome) = true := by
        obtain ⟨f, hf, hfooter⟩ := hany
        exact List.any_eq_true.mpr ⟨f, mem_listSnapshots.mpr hf, hfooter⟩
      rw [if_pos hanyList] at hload
      have herr : recoverInternal cfg w files = .error allCorrupt := by rw [recoverInternal, hload]
      simp [herr, hany]
    · have hanyList : ¬ (listSnapshotsNewestFirst files).any (·.footer.isSome) = true := by
        intro hex
        obtain ⟨f, hf, hfooter⟩ := List.any_eq_true.mp hex
        exact hany ⟨f, mem_listSnapshots.mp hf, hfooter⟩
      rw [if_neg hanyList] at hload
      have hzero : latestSnapshotLsn s.files = 0 := by
        refine hcorrupt.latest_zero fun f hf => ?_
        cases hfooter : f.footer with
        | none => rfl
        | some m => exact absurd ⟨f, hf, by rw [hfooter]; rfl⟩ hany
      have hble := h.base_le
      rw [hzero] at hble
      rw [noHole_iff_of_load hlog h.room hread hload rfl (Nat.zero_le _)]
      simp only [hany, false_or]
      exact ⟨fun h => h.1, fun h => ⟨h, hble⟩⟩

/-! ## Two snapshots, one of them corrupt -/

def corruptAt (ts : UInt64) (files : List SnapshotFile) : List SnapshotFile :=
  files.map fun f => if f.timestamp = ts then { f with index := { f.index with checksum := 1 } } else f

theorem corrupted_corruptAt (ts : UInt64) {files : List SnapshotFile}
    (h : ∀ f ∈ files, ∀ m ∈ f.footer, m.checksum ≠ 1) : Corrupted files (corruptAt ts files) := by
  rw [Corrupted, corruptAt, List.forall₂_map_right_iff, List.forall₂_same]
  intro f hf
  split
  · exact ⟨rfl, rfl, Or.inr fun m hm => (h f hf m hm).symm⟩
  · exact ⟨rfl, rfl, Or.inl rfl⟩

def twoSnapshots : List Act :=
  [.open_, .addPoint 1 [7] 0] ++ flushed 1 ++ snapshotted 10 ++ [.addPoint 2 [9] 0] ++ flushed 1 ++ snapshotted 20 ++
    [.crash]

/-- With the older snapshot corrupt, the recovery has no hole. -/
theorem noHole_iff_twoSnapshots :
    ∃ s image, run (step (smallConfig 2)) init twoSnapshots = some s ∧ s.process = .down image ∧
      Corrupted s.files (corruptAt 10 s.files) ∧
      ((∀ r, reopen (smallConfig 2) image (corruptAt 10 s.files) = .ok r → NoHole s.history r) ↔
        Reaches (smallConfig 2) image (corruptAt 10 s.files)) := by
  have hsteady : Along (step (smallConfig 2)) (Steady (smallConfig 2)) init twoSnapshots := by decide +kernel
  have hreopened : (run (step (smallConfig 2)) init twoSnapshots).any (fun s =>
      (reopened (smallConfig 2) s).any fun _ => decide (∀ f ∈ s.files, ∀ m ∈ f.footer, m.checksum ≠ 1)) = true := by
    decide +kernel
  obtain ⟨s, image, -, hrun, himage, -, hcheck⟩ := exists_reopened hreopened
  have hcorrupt := corrupted_corruptAt 10 (of_decide_eq_true hcheck)
  exact ⟨s, image, hrun, himage, hcorrupt, noHole_iff hsteady hrun himage hcorrupt⟩

/-- With the newer snapshot corrupt, the recovery returns Ok on the older one, below the base of the log, and the
second acknowledged point is gone. -/
theorem older_snapshot_hole :
    ∃ s image r, run (step (smallConfig 2)) init twoSnapshots = some s ∧ s.process = .down image ∧
      Corrupted s.files (corruptAt 20 s.files) ∧
      reopen (smallConfig 2) image (corruptAt 20 s.files) = .ok r ∧
      s.acked = [⟨.insert, 0, 1, [7]⟩, ⟨.insert, 0, 2, [9]⟩] ∧ r.index.live 2 = none ∧ ¬ NoHole s.history r := by
  have hhole : (run (step (smallConfig 2)) init twoSnapshots).any (fun s =>
      decide (∀ f ∈ s.files, ∀ m ∈ f.footer, m.checksum ≠ 1) &&
        (reopened (smallConfig 2) { s with files := corruptAt 20 s.files }).any fun r =>
          s.acked == [⟨.insert, 0, 1, [7]⟩, ⟨.insert, 0, 2, [9]⟩] && r.index.live 2 == none &&
            decide (r.snapshotLsn < r.wal.committedLsn - r.wal.entryCount)) = true := by decide +kernel
  obtain ⟨s, hrun, hs⟩ := Option.any_eq_true _ _ |>.mp hhole
  rw [Bool.and_eq_true] at hs
  obtain ⟨r, hr, hcheck⟩ := Option.any_eq_true _ _ |>.mp hs.2
  obtain ⟨image, himage, hopen⟩ := reopened_eq_some hr
  simp only [Bool.and_eq_true, beq_iff_eq, decide_eq_true_eq] at hcheck
  refine ⟨s, image, r, hrun, himage, corrupted_corruptAt 20 (of_decide_eq_true hs.1), hopen, hcheck.1.1, hcheck.1.2, ?_⟩
  intro hno
  exact UInt64.not_lt.mpr hno.base_le hcheck.2

end Cortrix.Store.Phnsw.PHnsw
