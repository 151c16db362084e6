import Cortrix.Store.Phnsw.RecoveryExact

/-!
# A header whose checksum fails

When the header of hnsw.wal fails its checksum, `Open` starts the counters at zero and `ReadAll` counts the
records of the file from there, while the snapshots keep the LSNs of the whole history.

* `repairedRuns_iff` : recovery and every later one replays the history behind its snapshot exactly when the file
  still holds the history from its first record on;
* `header_repair_skips` : a record acknowledged after a snapshot is skipped once the header is repaired.
-/

namespace Cortrix.Store.Phnsw.PHnsw
open Lib
open SnapshotManager
open WalWriter (walImage BadHeader)
open WalEntry (serialize Loggable)

variable {cfg : Config} {s t : State} {b : Nat}

def withHeader (hdr image : Bytes) : Bytes := hdr ++ image.drop WalWriter.kHeaderSize

/-- The recovery from this state, and every one that a steady run from it leads to, succeeds and replays every
record of the history behind the snapshot it loaded. -/
def RepairedRuns (cfg : Config) (s : State) : Prop :=
  ∀ acts t image, Along (step cfg) (Steady cfg) s acts → run (step cfg) s acts = some t → t.process = .down image →
    ∃ r, reopen cfg image t.files = .ok r ∧ r.replayed = t.history.drop r.snapshotLsn.toNat

variable {image hdr : Bytes}

theorem Down.drop_header (h : Down cfg s image b) :
    image.drop WalWriter.kHeaderSize = ((s.history.drop b).map serialize).flatten := by
  rcases h.log with ⟨rfl, hhist, rfl⟩ | ⟨n, l, hlog⟩
  · rw [hhist]
    rfl
  · rw [hlog.image_eq, walImage, List.drop_left' (WalWriter.length_makeHeader _ _ _)]

/-- The writer that `ReadAll` leaves: the records of the file, counted from zero. -/
def repairedWal (dim : Nat) (es : List WalEntry) : WalWriter where
  image := walImage dim (UInt64.ofNat es.length) (UInt64.ofNat es.length) es
  dim := dim
  entryCount := UInt64.ofNat es.length
  committedLsn := UInt64.ofNat es.length
  headerTrusted := true

theorem Down.repaired (h : Down cfg s image b) (hbad : BadHeader cfg.dim hdr) :
    ∃ w r, WalWriter.openWal cfg.dim (withHeader hdr image) = .ok w ∧ recoverInternal cfg w s.files = .ok r ∧
      r.wal = repairedWal cfg.dim (s.history.drop b) ∧ r.snapshotLsn = latestSnapshotLsn s.files ∧
      r.replayed = (s.history.drop b).drop (latestSnapshotLsn s.files).toNat ∧
      r.index = (graphAt cfg s.history (latestSnapshotLsn s.files).toNat).applyAll cfg.maxElements r.replayed ∧
      r.appliedLsn = latestSnapshotLsn s.files + UInt64.ofNat r.replayed.length := by
  have hroom := h.room
  have hread := WalWriter.readAll_untrusted hbad.1 cfg.dim_pos
    (fun e he => h.loggable e (List.mem_of_mem_drop he) : ∀ e ∈ s.history.drop b, _)
  have hwrap : ((repairedWal cfg.dim (s.history.drop b)).committedLsn -
      (repairedWal cfg.dim (s.history.drop b)).entryCount).toNat + (s.history.drop b).length < 2 ^ 64 := by
    rw [repairedWal, UInt64.sub_self, UInt64.toNat_zero, List.length_drop]
    omega
  obtain ⟨r, hr, hwal, hlsn, hreplayed, hindex, happlied⟩ := recoverInternal_faithful h.files hread hwrap
  refine ⟨_, r, ?_, hr, hwal, hlsn, ?_, hindex, happlied⟩
  · rw [withHeader, h.drop_header]
    exact WalWriter.openWal_badHeader cfg.dim_pos hbad _
  · rw [hreplayed, UInt64.sub_self, behind]
    rfl

/-- With nothing truncated the repaired header counts from where the history starts, and the index is in step. -/
theorem Down.repaired_up (h : Down cfg s image 0) (hbad : BadHeader cfg.dim hdr) :
    ∃ w r, WalWriter.openWal cfg.dim (withHeader hdr image) = .ok w ∧ recoverInternal cfg w s.files = .ok r ∧
      r.replayed = s.history.drop r.snapshotLsn.toNat ∧
      ∀ proc, Up cfg { s with process := proc } (ready r) 0 := by
  obtain ⟨w, r, hopen, hr, hwal, hsnap, hreplayed, hindex, happlied⟩ := h.repaired hbad
  have hroom := h.room
  have hle := latest_le h.files
  have hlen : (UInt64.ofNat s.history.length).toNat = s.history.length := by
    rw [UInt64.toNat_ofNat', Nat.mod_eq_of_lt hroom]
  rw [List.drop_zero] at hwal hreplayed
  have happ : r.appliedLsn.toNat = s.history.length := by
    rw [happlied, hreplayed, toNat_add_ofNat (by rw [List.length_drop]; omega), List.length_drop]
    omega
  refine ⟨w, r, hopen, hr, by rw [hreplayed, hsnap], fun proc => ?_⟩
  exact {
    dim_eq := by simp [ready, hwal, repairedWal]
    trusted := by simp [ready, hwal, repairedWal]
    counts := by simp [ready, hwal, repairedWal, hlen, Pc.uncounted]
    lsn_eq := by simp [ready, hwal, repairedWal]
    file := by simp [ready, hwal, repairedWal, LogFile]
    applied_le := happ.le
    pending := List.drop_eq_nil_of_le happ.ge
    index_eq := by
      change r.index = graphAt cfg s.history r.appliedLsn.toNat
      rw [happ, hindex, hreplayed]
      exact stateAt_drop.trans stateAt_length.symm
    room := hroom
    loggable := h.loggable
    queued := by simp [ready, Pc.unwritten]
    files := h.files
    base_le := Nat.zero_le _ }

def deleteAcked : List Act := [.markDelete 0 0, .flush 1] ++ List.replicate 6 .advance ++ [.crash]

theorem run_deleteAcked {u : State} {p : Running} {n l : UInt64} {es : List WalEntry} (hp : u.process = .up p)
    (hpc : p.pc = .idle) (hqueue : p.queue = []) (hdim : p.wal.dim = cfg.dim)
    (himage : p.wal.image = walImage cfg.dim n l es) (hroom : u.history.length + 1 < 2 ^ 64) :
    Along (step cfg) (Steady cfg) u deleteAcked ∧
      ∃ t, run (step cfg) u deleteAcked = some t ∧
        t.process = .down (walImage cfg.dim (p.wal.entryCount + 1) (p.wal.committedLsn + 1)
          (es ++ [{ type := .delete }])) ∧
        t.files = u.files ∧ t.history = u.history ++ [{ type := .delete }] := by
  have hread : WalEntry.deserialize cfg.dim (serialize { type := .delete }) = .ok { type := .delete } :=
    WalEntry.deserialize_serialize ⟨fun htype => absurd htype (by decide), rfl⟩
  obtain ⟨process, files, history, past, submitted, acked⟩ := u
  obtain ⟨mem, ⟨image, dim, entryCount, committedLsn, trusted⟩, queue, pc⟩ := p
  subst hp hpc hqueue hdim himage
  have happ := WalWriter.walImage_append cfg.dim n l es [{ type := .delete }]
  rw [List.map_singleton, List.flatten_singleton] at happ
  constructor
  · simpa [deleteAcked, Along, step, submit, Steady, SteadyAdvance, SteadyCrash, advance, hread] using hroom
  · simp only [deleteAcked, List.reduceReplicate, List.cons_append, List.nil_append, run, step, submit, zero_lt_one,
      true_and, List.drop_one, advance, Option.bind_some, List.length_cons, List.length_nil, zero_add, Std.le_refl,
      and_self, ↓reduceIte, List.tail_cons, List.take_succ_cons, List.take_nil, UInt64.ofNat_one, hread,
      Option.some.injEq, exists_eq_left', Process.down.injEq, and_true]
    rw [happ, WalWriter.rewriteHeader_walImage _ (WalWriter.length_makeHeader cfg.dim n l) rfl]

theorem reopen_walImage {hist es : List WalEntry} {files : List SnapshotFile} {n l : UInt64}
    (hfiles : ∀ f ∈ files, Faithful cfg hist f) (hloggable : ∀ e ∈ es, Loggable cfg.dim e)
    (hwrap : (l - n).toNat + es.length < 2 ^ 64) :
    ∃ r, reopen cfg (walImage cfg.dim n l es) files = .ok r ∧ r.snapshotLsn = latestSnapshotLsn files ∧
      r.replayed = behind (l - n).toNat (latestSnapshotLsn files).toNat es := by
  have hopen := WalWriter.openWal_walImage cfg.dim_pos n l es
  have hread := WalWriter.readAll_walImage (w := ⟨walImage cfg.dim n l es, cfg.dim, n, l, true⟩) rfl cfg.dim_pos rfl
    hloggable
  obtain ⟨r, hr, -, hsnap, hreplayed, -⟩ := recoverInternal_faithful hfiles hread hwrap
  refine ⟨r, ?_, hsnap, hreplayed⟩
  rw [reopen, hopen]
  exact hr

def State.withBadHeader (s : State) (hdr image : Bytes) : State := { s with process := .down (withHeader hdr image) }

theorem step_open_repaired {w : WalWriter} {r : Recovered}
    (hopen : WalWriter.openWal cfg.dim (withHeader hdr image) = .ok w) (hr : recoverInternal cfg w s.files = .ok r) :
    step cfg (s.withBadHeader hdr image) .open_ = some { s with process := .up (ready r) } := by
  have hr' : recoverInternal cfg w (s.withBadHeader hdr image).files = .ok r := hr
  simp only [step, State.withBadHeader, openIndex, hopen] at hr' ⊢
  rw [hr']

theorem reopen_repaired {w : WalWriter} {r : Recovered}
    (hopen : WalWriter.openWal cfg.dim (withHeader hdr image) = .ok w) (hr : recoverInternal cfg w s.files = .ok r) :
    reopen cfg (withHeader hdr image) s.files = .ok r := by
  rw [reopen, hopen]
  exact hr

/-- With nothing truncated, the repair loses nothing. -/
theorem repairedRuns_of_base (h : Down cfg s image 0) (hbad : BadHeader cfg.dim hdr) :
    RepairedRuns cfg (s.withBadHeader hdr image) := by
  obtain ⟨w, r, hopen, hr, hreplayed, hup⟩ := h.repaired_up hbad
  intro acts t image' hq hrun hdown
  cases acts with
  | nil =>
    cases hrun
    cases hdown
    exact ⟨r, reopen_repaired hopen hr, hreplayed⟩
  | cons a acts =>
    obtain ⟨u, hu, hrun⟩ := run_cons.mp hrun
    obtain ⟨-, hq⟩ := along_cons.mp hq
    have ha : a = .open_ := by
      cases a <;> first | rfl | cases hu
    subst ha
    have hsteady := hq u hu
    rw [step_open_repaired hopen hr] at hu
    cases hu
    obtain ⟨b, hdisk, -⟩ := run_inv Inv.step (.of_up rfl (hup _)) hsteady hrun
    obtain ⟨w', r', hopen', hr', -, -, hsnap', hreplayed', -⟩ := (hdisk _ hdown).opened
    refine ⟨r', ?_, by rw [hreplayed', hsnap']⟩
    rw [reopen, hopen']
    exact hr'

/-- Once a snapshot has truncated records away, the next record written is skipped, if not one already there. -/
theorem not_repairedRuns (h : Down cfg s image b) (hbad : BadHeader cfg.dim hdr) (hb : 0 < b)
    (hroom : s.history.length + 1 < 2 ^ 64) : ¬ RepairedRuns cfg (s.withBadHeader hdr image) := by
  intro hall
  obtain ⟨w, r, hopen, hr, hwal, hsnap, hreplayed, -, -⟩ := h.repaired hbad
  have hle := latest_le h.files
  have hbase := h.base_le
  by_cases hbehind : (latestSnapshotLsn s.files).toNat < s.history.length
  · -- a record behind the snapshot is in the file; counted from zero it has an LSN the snapshot covers
    obtain ⟨r', hr', hreplayed'⟩ := hall [] _ _ trivial rfl rfl
    have heq : r' = r := by
      rw [show (s.withBadHeader hdr image).files = s.files from rfl, reopen_repaired hopen hr] at hr'
      exact (Except.ok.inj hr').symm
    rw [heq, hreplayed, hsnap] at hreplayed'
    have hlen := congrArg List.length hreplayed'
    simp only [State.withBadHeader, List.length_drop] at hlen
    omega
  · -- every record is in the snapshot; the next one to be acknowledged is not replayed
    have hdim : (ready r).wal.dim = cfg.dim := by simp [ready, hwal, repairedWal]
    obtain ⟨hsteady, t, hrun, hdown, hfiles, hhist⟩ :=
      run_deleteAcked (u := { s with process := .up (ready r) }) rfl rfl rfl hdim
        (show (ready r).wal.image = _ by simp [ready, hwal, repairedWal]; rfl) hroom
    have hstep := step_open_repaired hopen hr
    obtain ⟨r', hr', hreplayed'⟩ := hall (.open_ :: deleteAcked) t _
      (along_cons.mpr ⟨trivial, fun u hu => by rw [hstep] at hu; cases hu; exact hsteady⟩)
      (run_cons.mpr ⟨_, hstep, hrun⟩) hdown
    have hloggable : ∀ e ∈ s.history.drop b ++ [{ type := .delete }], Loggable cfg.dim e := by
      intro e he
      rcases List.mem_append.mp he with he | he
      · exact h.loggable e (List.mem_of_mem_drop he)
      · rw [List.mem_singleton.mp he]
        exact ⟨fun htype => absurd htype (by decide), rfl⟩
    have hcounters : ((ready r).wal.committedLsn + 1 - ((ready r).wal.entryCount + 1)).toNat = 0 := by
      simp [ready, hwal, repairedWal]
    have hlen : (s.history.drop b ++ [({ type := .delete } : WalEntry)]).length = s.history.length - b + 1 := by
      rw [List.length_append, List.length_drop, List.length_singleton]
    obtain ⟨r'', hr'', hsnap'', hreplayed''⟩ := reopen_walImage h.files (n := (ready r).wal.entryCount + 1)
      (l := (ready r).wal.committedLsn + 1) hloggable (by rw [hcounters, hlen]; omega)
    have heq : r' = r'' := by
      rw [hfiles, hr''] at hr'
      exact (Except.ok.inj hr').symm
    rw [heq, hreplayed'', hsnap'', hhist] at hreplayed'
    have hlens := congrArg List.length hreplayed'
    rw [hcounters, behind, List.length_drop, hlen, List.length_drop, List.length_append,
      List.length_singleton] at hlens
    simp only at hlens
    omega

/-- **A header whose checksum fails.** After a steady run, with only the header's checksum made to fail: the recovery
replays every record of the file behind the snapshot, and so does every later recovery of a steady run, exactly when
the log still starts at the first record of the history. -/
theorem repairedRuns_iff {acts : List Act} {image hdr : Bytes} (hq : Along (step cfg) (Steady cfg) init acts)
    (hrun : run (step cfg) init acts = some s) (hdown : s.process = .down image) (hbad : BadHeader cfg.dim hdr)
    (hroom : s.history.length + 1 < 2 ^ 64) :
    RepairedRuns cfg (s.withBadHeader hdr image) ↔ logBase image = 0 := by
  obtain ⟨b, hdisk, -⟩ := inv_of_run hq hrun
  have h := hdisk image hdown
  rw [h.fields.1]
  constructor
  · intro hall
    by_contra hb
    exact not_repairedRuns h hbad (Nat.pos_of_ne_zero hb) hroom hall
  · rintro rfl
    exact repairedRuns_of_base h hbad

/-! ## A header of zeros -/

/-- The fixed fields, then zeros. -/
def zeroHeader : Bytes := WalWriter.fixedHeader 1 ++ List.replicate 22 0

theorem badHeader_zeroHeader : BadHeader 1 zeroHeader := by decide +kernel

/-- A snapshot whose process crashed before the truncation. -/
def savedNotTruncated : List Act :=
  [.open_, .addPoint 1 [7] 0] ++ flushed 1 ++ [.snapshot 10 0, .advance, .advance, .crash]

theorem repairedRuns_iff_savedNotTruncated :
    ∃ s image, run (step (smallConfig 1)) init savedNotTruncated = some s ∧ s.process = .down image ∧
      (RepairedRuns (smallConfig 1) (s.withBadHeader zeroHeader image) ↔ logBase image = 0) := by
  have hsteady : Along (step (smallConfig 1)) (Steady (smallConfig 1)) init savedNotTruncated := by decide +kernel
  have hreopened : (run (step (smallConfig 1)) init savedNotTruncated).any (fun s =>
      (reopened (smallConfig 1) s).any fun _ => decide (s.history.length + 1 < 2 ^ 64)) = true := by decide +kernel
  obtain ⟨s, image, -, hrun, himage, -, hroom⟩ := exists_reopened hreopened
  exact ⟨s, image, hrun, himage,
    repairedRuns_iff hsteady hrun himage badHeader_zeroHeader (of_decide_eq_true hroom)⟩

/-- One record in a snapshot, a second one acknowledged behind it. -/
def ackedBehindSnapshot : List Act :=
  [.open_, .addPoint 1 [7] 0] ++ flushed 1 ++ snapshotted 10 ++ [.addPoint 2 [9] 0] ++ flushed 1 ++ [.crash]

/-- The second record is in the file and in no snapshot; with the header zeroed the recovery returns Ok without it. -/
theorem header_repair_skips :
    ∃ s image r, run (step (smallConfig 1)) init ackedBehindSnapshot = some s ∧ s.process = .down image ∧
      BadHeader 1 zeroHeader ∧ reopen (smallConfig 1) (withHeader zeroHeader image) s.files = .ok r ∧
      s.acked = [⟨.insert, 0, 1, [7]⟩, ⟨.insert, 0, 2, [9]⟩] ∧
      (WalWriter.scanRecords 1 (withHeader zeroHeader image)).1 = [⟨.insert, 0, 2, [9]⟩] ∧
      r.snapshotLsn = 1 ∧ r.replayed = [] ∧ r.index.live 2 = none := by
  have hskips : (run (step (smallConfig 1)) init ackedBehindSnapshot).any (fun s =>
      (reopened (smallConfig 1) s).any fun _ =>
        (reopened (smallConfig 1) (s.withBadHeader zeroHeader s.process.image)).any fun r =>
          s.acked == [⟨.insert, 0, 1, [7]⟩, ⟨.insert, 0, 2, [9]⟩] &&
            (WalWriter.scanRecords 1 (withHeader zeroHeader s.process.image)).1 == [⟨.insert, 0, 2, [9]⟩] &&
            r.snapshotLsn == 1 && r.replayed == [] && r.index.live 2 == none) = true := by decide +kernel
  obtain ⟨s, image, -, hrun, himage, -, hs⟩ := exists_reopened hskips
  obtain ⟨r, hr, hcheck⟩ := Option.any_eq_true _ _ |>.mp hs
  rw [himage, Process.image] at hr hcheck
  obtain ⟨_, himage', hopen⟩ := reopened_eq_some hr
  cases himage'
  simp only [Bool.and_eq_true, beq_iff_eq] at hcheck
  obtain ⟨⟨⟨⟨hacked, hscan⟩, hsnap⟩, hreplayed⟩, hlive⟩ := hcheck
  exact ⟨s, image, r, hrun, himage, badHeader_zeroHeader, hopen, hacked, hscan, hsnap, hreplayed, hlive⟩

end Cortrix.Store.Phnsw.PHnsw
