import Cortrix.Lib.Run
import Cortrix.Lib.Replay
import Cortrix.Store.Phnsw.SnapshotManager
import Cortrix.Store.Phnsw.WalImage

/-!
# PHnsw: the index, its log and its snapshots over crashes

The process takes its steps one write at a time and may crash before any of them. A crash keeps what the
files hold: every `pwrite` is whole or has not happened.

* the fields `history`, `past`, `submitted`, `acked` of `State` record what happened: the records whose
  `pwrite` happened, those submitted in each earlier life of the process and in this one, and those whose
  call returned Ok.
-/

namespace Cortrix.Store.Phnsw
open Lib
open SnapshotManager (load renameIndex writeFooter cleanOldSnapshots keepCount)

/-- The index configuration; `WalWriter::Open` rejects a dimension of zero. -/
structure Config where
  dim : Nat
  maxElements : Nat
  snapshotKeepCount : Int
  dim_pos : 0 < dim

namespace PHnsw

/-- `index_` and `applied_lsn_`. -/
structure Memory where
  index : Graph
  appliedLsn : UInt64

def applyEntryLocked (cfg : Config) (m : Memory) (e : WalEntry) : Memory :=
  ⟨m.index.applyEntry cfg.maxElements e, m.appliedLsn + 1⟩

/-! ## RecoverInternal -/

/-- The replay loop from a record with this LSN on. -/
def replayLoop (cfg : Config) (snapshotLsn : UInt64) : UInt64 → List WalEntry → Memory → Memory
  | _, [], m => m
  | lsn, e :: es, m =>
    replayLoop cfg snapshotLsn (lsn + 1) es (if lsn ≤ snapshotLsn then m else applyEntryLocked cfg m e)

/-- The records the replay loop does not skip. -/
def replayed (snapshotLsn : UInt64) : UInt64 → List WalEntry → List WalEntry
  | _, [] => []
  | lsn, e :: es =>
    if lsn ≤ snapshotLsn then replayed snapshotLsn (lsn + 1) es else e :: replayed snapshotLsn (lsn + 1) es

/-- What a recovery leaves in memory, with the snapshot's LSN and the records it replayed. -/
structure Recovered extends Memory where
  wal : WalWriter
  snapshotLsn : UInt64
  replayed : List WalEntry

def recoverInternal (cfg : Config) (wal : WalWriter) (files : List SnapshotFile) : Except Status Recovered :=
  match load files with
  | .error st => .error st
  | .ok loaded =>
    let index := (loaded.map (·.1)).getD Graph.empty
    let snapshotLsn := (loaded.map (·.2)).getD 0
    let (entries, wal) := wal.readAll cfg.dim
    let base := wal.committedLsn - wal.entryCount
    .ok { toMemory := replayLoop cfg snapshotLsn (base + 1) entries ⟨index, snapshotLsn⟩, wal, snapshotLsn,
          replayed := replayed snapshotLsn (base + 1) entries }

/-- Open hnsw.wal, then recover. -/
def reopen (cfg : Config) (image : Bytes) (files : List SnapshotFile) : Except Status Recovered :=
  match WalWriter.openWal cfg.dim image with
  | .error st => .error st
  | .ok wal => recoverInternal cfg wal files

/-! ## The states -/

/-- Where the holder of the write lock stands. -/
inductive Pc
  | idle
  /-- `WriteRecordsLocked`: the records of the batch already down and those to come. -/
  | records (done rest : List WalEntry)
  | header (batch : List WalEntry)
  | sync (batch : List WalEntry)
  /-- The batch is durable; `rest` is still to be applied to the graph. -/
  | apply (rest batch : List WalEntry)
  | saveMeta (ts : UInt64) (crc : UInt32)
  | clean
  | truncate
  | truncateHeader
  | truncateSync
  deriving DecidableEq

/-- A process that is ready; `queue` are the records submitted and not yet taken into a batch. -/
structure Running extends Memory where
  wal : WalWriter
  queue : List WalEntry
  pc : Pc

inductive Process
  | down (image : Bytes)
  | up (p : Running)

def Process.image : Process → Bytes
  | .down image => image
  | .up p => p.wal.image

structure State where
  process : Process
  files : List SnapshotFile
  history : List WalEntry
  past : List (List WalEntry)
  submitted : List WalEntry
  acked : List WalEntry

def init : State := ⟨.down [], [], [], [], [], []⟩

inductive Act
  | open_
  | recover
  | addPoint (blockId : UInt64) (vec : List UInt32) (now : Int64)
  | markDelete (blockId : UInt64) (now : Int64)
  /-- The group committer hands the first `n` queued records to `ApplySink`. -/
  | flush (n : Nat)
  /-- `Snapshot` at a clock reading; `crc` is the checksum of what `saveIndex` wrote. -/
  | snapshot (ts : UInt64) (crc : UInt32)
  | advance
  | crash

/-! ## The steps -/

def ready (r : Recovered) : Running := { r with queue := [], pc := .idle }

/-- The constructor: without a log, or when the recovery fails, the index is not ready. -/
def openIndex (cfg : Config) (s : State) (image : Bytes) : State :=
  match WalWriter.openWal cfg.dim image with
  | .error _ => s
  | .ok wal =>
    match recoverInternal cfg wal s.files with
    | .error _ => { s with process := .down wal.image }
    | .ok r => { s with process := .up (ready r) }

def recover (cfg : Config) (s : State) (p : Running) : State :=
  match recoverInternal cfg p.wal s.files with
  | .error _ => s
  | .ok r => { s with process := .up { r with queue := p.queue, pc := .idle } }

def submit (s : State) (p : Running) (e : WalEntry) : State :=
  { s with process := .up { p with queue := p.queue ++ [e] }, submitted := s.submitted ++ [e] }

def ftruncate (w : WalWriter) : WalWriter := { w with image := w.image.take WalWriter.kHeaderSize, entryCount := 0 }

/-- The next step of the lock's holder. -/
def advance (cfg : Config) (s : State) (p : Running) : Option State :=
  match p.pc with
  | .idle => none
  | .records done (e :: rest) =>
    some { s with process := .up { p with wal := { p.wal with image := p.wal.image ++ WalEntry.serialize e },
                                          pc := .records (done ++ [e]) rest },
                  history := s.history ++ [e] }
  | .records done [] =>
    some { s with process := .up { p with
      wal := { p.wal with entryCount := p.wal.entryCount + UInt64.ofNat done.length,
                          committedLsn := p.wal.committedLsn + UInt64.ofNat done.length },
      pc := .header done } }
  | .header batch =>
    some { s with process := .up { p with wal := (p.wal.rewriteHeaderLocked none).1, pc := .sync batch } }
  | .sync batch => some { s with process := .up { p with pc := .apply batch batch } }
  | .apply (e :: rest) batch =>
    match WalEntry.deserialize cfg.dim (WalEntry.serialize e) with
    | .ok e' =>
      some { s with process := .up { p with toMemory := applyEntryLocked cfg p.toMemory e', pc := .apply rest batch } }
    | .error _ => some { s with process := .up { p with pc := .idle } }
  | .apply [] batch => some { s with process := .up { p with pc := .idle }, acked := s.acked ++ batch }
  | .saveMeta ts crc =>
    some { s with process := .up { p with pc := .clean }, files := writeFooter ts ⟨p.appliedLsn, crc⟩ s.files }
  | .clean =>
    some { s with process := .up { p with pc := .truncate },
                  files := cleanOldSnapshots (keepCount cfg.snapshotKeepCount) s.files }
  | .truncate => some { s with process := .up { p with wal := ftruncate p.wal, pc := .truncateHeader } }
  | .truncateHeader =>
    some { s with process := .up { p with wal := (p.wal.rewriteHeaderLocked none).1, pc := .truncateSync } }
  | .truncateSync => some { s with process := .up { p with pc := .idle } }

def step (cfg : Config) (s : State) : Act → Option State
  | .open_ =>
    match s.process with
    | .down image => some (openIndex cfg s image)
    | .up _ => none
  | act =>
    match s.process with
    | .down _ => none
    | .up p =>
      match act with
      | .open_ => none
      | .recover => if p.pc = .idle then some (recover cfg s p) else none
      | .addPoint blockId vec now =>
        if vec.length = cfg.dim then
          some (submit s p { type := .insert, timestampMs := now, blockId, vector := vec }) else none
      | .markDelete blockId now => some (submit s p { type := .delete, timestampMs := now, blockId })
      | .flush n =>
        if p.pc = .idle ∧ 0 < n ∧ n ≤ p.queue.length then
          some { s with process := .up { p with queue := p.queue.drop n, pc := .records [] (p.queue.take n) } }
        else none
      | .snapshot ts crc =>
        if p.pc = .idle then
          some { s with process := .up { p with pc := .saveMeta ts crc },
                        files := renameIndex ts ⟨crc, some p.index⟩ s.files }
        else none
      | .advance => advance cfg s p
      | .crash =>
        some { s with process := .down p.wal.image, past := s.past ++ [s.submitted], submitted := [] }

/-! ## The replay loop -/

theorem replayLoop_eq (cfg : Config) (snapshotLsn lsn : UInt64) (es : List WalEntry) (m : Memory) :
    replayLoop cfg snapshotLsn lsn es m =
      ⟨m.index.applyAll cfg.maxElements (replayed snapshotLsn lsn es),
        m.appliedLsn + UInt64.ofNat (replayed snapshotLsn lsn es).length⟩ := by
  induction es generalizing lsn m with
  | nil => simp [replayLoop, replayed, Graph.applyAll]
  | cons e es ih =>
    rw [replayLoop, replayed, ih]
    split
    · rfl
    · have hadd : ∀ k : Nat, m.appliedLsn + 1 + UInt64.ofNat k = m.appliedLsn + UInt64.ofNat (k + 1) := by
        intro k
        rw [UInt64.ofNat_add, UInt64.add_assoc, UInt64.add_comm 1]
        rfl
      rw [List.length_cons, ← hadd]
      rfl

/-- Without a wrap of the LSNs, the loop skips the records up to the snapshot's LSN. -/
theorem replayed_eq {snapshotLsn base : UInt64} {es : List WalEntry} (h : base.toNat + es.length < 2 ^ 64) :
    replayed snapshotLsn (base + 1) es = behind base.toNat snapshotLsn.toNat es := by
  have key : ∀ (es : List WalEntry) (lsn : UInt64), lsn.toNat + es.length ≤ 2 ^ 64 →
      replayed snapshotLsn lsn es = es.drop (snapshotLsn.toNat + 1 - lsn.toNat) := by
    intro es
    induction es with
    | nil => intro lsn _; simp [replayed]
    | cons e es ih =>
      intro lsn hlsn
      rw [List.length_cons] at hlsn
      have hnext : replayed snapshotLsn (lsn + 1) es = es.drop (snapshotLsn.toNat + 1 - (lsn.toNat + 1)) := by
        cases es with
        | nil => simp [replayed]
        | cons e' es =>
          rw [List.length_cons] at hlsn
          have hsucc : (lsn + 1).toNat = lsn.toNat + 1 := by
            rw [UInt64.toNat_add, UInt64.toNat_one, Nat.mod_eq_of_lt (by omega)]
          rw [ih (lsn + 1) (by rw [hsucc, List.length_cons]; omega), hsucc]
      rw [replayed, hnext]
      split
      · rename_i hle
        rw [UInt64.le_iff_toNat_le] at hle
        rw [show snapshotLsn.toNat + 1 - lsn.toNat = snapshotLsn.toNat + 1 - (lsn.toNat + 1) + 1 by omega,
          List.drop_succ_cons]
      · rename_i hle
        rw [UInt64.le_iff_toNat_le] at hle
        rw [show snapshotLsn.toNat + 1 - lsn.toNat = 0 by omega,
          show snapshotLsn.toNat + 1 - (lsn.toNat + 1) = 0 by omega]
        rfl
  cases es with
  | nil => simp [replayed, behind]
  | cons e es =>
    rw [List.length_cons] at h
    have hsucc : (base + 1).toNat = base.toNat + 1 := by
      rw [UInt64.toNat_add, UInt64.toNat_one, Nat.mod_eq_of_lt (by omega)]
    rw [key (e :: es) (base + 1) (by rw [hsucc, List.length_cons]; omega), hsucc, behind]
    congr 1
    omega

end PHnsw

end Cortrix.Store.Phnsw
