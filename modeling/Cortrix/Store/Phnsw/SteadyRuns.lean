import Cortrix.Store.Phnsw.PHnswSteps

/-!
# Steady runs

Recovery rebuilds the LSN of a record from the header's counters and its position. What keeps the counters, the
records of the file and the snapshots in step is an invariant with the base `b`, the number of records of the
history that the file no longer holds:

* the file holds the history from `b` on, its header `(n, l)` has `l = b + n`, and `n` may lag behind the records;
* every committed snapshot loads as the graph of the history up to its LSN, and the newest one is not older
  than `b`;
* the graph in memory is that of the history up to `applied_lsn_`.

The steps that break it are left out by `Steady`:

* a truncation while the header counts fewer records than the file holds, or while the newest committed snapshot
  is not the one of this moment;
* a cleanup that removes the newest committed snapshot;
* a crash between the truncation of the file and the rewrite of a header that counts records, or between an
  `.index` and its footer when an older footer stands under that name;
* records and batches beyond what their counters hold.

Main results: `recoverInternal_ok` (a recovery on a disk in step) and `Inv.step` (steady steps keep the invariant).
-/

namespace Cortrix.Store.Phnsw.PHnsw
open Lib
open SnapshotManager
open WalWriter (walImage scanRecords)
open WalEntry (Loggable)

def headerEntryCount (image : Bytes) : Nat := leNat ((image.drop 10).take 8)

def headerCommittedLsn (image : Bytes) : Nat := leNat ((image.drop 18).take 8)

/-- The LSN just before the first record of the file. -/
def logBase (image : Bytes) : Nat := headerCommittedLsn image - headerEntryCount image

def SteadyAdvance (cfg : Config) (s : State) (p : Running) : Pc → Prop
  | .clean => latestFooter (cleanOldSnapshots (keepCount cfg.snapshotKeepCount) s.files) = latestFooter s.files
  | .truncate => p.wal.entryCount.toNat = (scanRecords cfg.dim p.wal.image).1.length ∧
      latestSnapshotLsn s.files = p.appliedLsn
  | _ => True

def SteadyCrash (s : State) (p : Running) : Pc → Prop
  | .saveMeta ts crc => ∀ f ∈ s.files, f.timestamp = ts → f.footer = none ∨ f.footer = some ⟨p.appliedLsn, crc⟩
  | .truncateHeader => headerEntryCount p.wal.image = 0
  | .idle | .records _ _ | .header _ | .sync _ | .apply _ _ | .clean | .truncate | .truncateSync => True

def Steady (cfg : Config) (s : State) : Act → Prop
  | .addPoint _ _ _ => 21 + 4 * cfg.dim < 2 ^ 32
  | .flush n => s.history.length + n < 2 ^ 64
  | .advance =>
    match s.process with
    | .up p => SteadyAdvance cfg s p p.pc
    | .down _ => True
  | .crash =>
    match s.process with
    | .up p => SteadyCrash s p p.pc
    | .down _ => True
  | _ => True

instance (cfg : Config) (s : State) (p : Running) : (pc : Pc) → Decidable (SteadyAdvance cfg s p pc)
  | .clean => inferInstanceAs (Decidable (_ = _))
  | .truncate => inferInstanceAs (Decidable (_ ∧ _))
  | .idle | .records _ _ | .header _ | .sync _ | .apply _ _ | .saveMeta _ _ | .truncateHeader | .truncateSync =>
    .isTrue trivial

instance (s : State) (p : Running) : (pc : Pc) → Decidable (SteadyCrash s p pc)
  | .saveMeta _ _ => List.decidableBAll _ _
  | .truncateHeader => Nat.decEq _ _
  | .idle | .records _ _ | .header _ | .sync _ | .apply _ _ | .clean | .truncate | .truncateSync => .isTrue trivial

instance (cfg : Config) (s : State) : (a : Act) → Decidable (Steady cfg s a)
  | .addPoint _ _ _ => Nat.decLt _ _
  | .flush _ => Nat.decLt _ _
  | .advance =>
    match h : s.process with
    | .up p => decidable_of_iff (SteadyAdvance cfg s p p.pc) (by simp only [Steady, h])
    | .down _ => .isTrue (by simp only [Steady, h])
  | .crash =>
    match h : s.process with
    | .up p => decidable_of_iff (SteadyCrash s p p.pc) (by simp only [Steady, h])
    | .down _ => .isTrue (by simp only [Steady, h])
  | .open_ | .recover | .markDelete _ _ | .snapshot _ _ => .isTrue trivial

/-! ## The invariant -/

namespace Pc

/-- In the history, not yet in the graph. -/
def pending : Pc → List WalEntry
  | .records done _ => done
  | .header batch => batch
  | .sync batch => batch
  | .apply rest _ => rest
  | _ => []

/-- In the batch, not yet in the file. -/
def unwritten : Pc → List WalEntry
  | .records _ rest => rest
  | _ => []

/-- How many records of the batch are in the file and not in the counters. -/
def uncounted : Pc → Nat
  | .records done _ => done.length
  | _ => 0

end Pc

variable {cfg : Config} {s s' : State} {a : Act} {p : Running} {hist : List WalEntry} {b : Nat}

def graphAt (cfg : Config) (hist : List WalEntry) (n : Nat) : Graph :=
  stateAt (Graph.applyEntry cfg.maxElements) Graph.empty hist n

/-- The file holds the history from `b` on; its header has `n` of these records counted. -/
structure Log (cfg : Config) (hist : List WalEntry) (b : Nat) (image : Bytes) (n l : UInt64) : Prop where
  image_eq : image = walImage cfg.dim n l (hist.drop b)
  counts : n.toNat + b ≤ hist.length
  lsn_eq : l.toNat = b + n.toNat

/-- A committed snapshot loads as the graph of the history up to its LSN. -/
def Faithful (cfg : Config) (hist : List WalEntry) (f : SnapshotFile) : Prop :=
  ∀ m ∈ f.footer, m.lsn.toNat ≤ hist.length ∧ loaded f = some (graphAt cfg hist m.lsn.toNat, m.lsn)

/-- The file under the writer's counters, at each point of the lock's holder. -/
def LogFile (cfg : Config) (hist : List WalEntry) (w : WalWriter) (b : Nat) : Pc → Prop
  | .header _ => ∃ n l : UInt64, n.toNat ≤ w.entryCount.toNat ∧ l.toNat = b + n.toNat ∧
      w.image = walImage cfg.dim n l (hist.drop b)
  | .truncateHeader => b = hist.length ∧ w.entryCount = 0 ∧ ∃ n, w.image = walImage cfg.dim n w.committedLsn []
  | _ => w.image = walImage cfg.dim w.entryCount w.committedLsn (hist.drop b)

/-- The snapshots; between an `.index` and its footer the file of that name is in the making. -/
def FilesOk (cfg : Config) (hist : List WalEntry) (files : List SnapshotFile) (index : Graph) : Pc → Prop
  | .saveMeta ts crc => ∀ f ∈ files, f.timestamp = ts ∧ f.index = ⟨crc, some index⟩ ∨
      f.timestamp ≠ ts ∧ Faithful cfg hist f
  | _ => ∀ f ∈ files, Faithful cfg hist f

structure Up (cfg : Config) (s : State) (p : Running) (b : Nat) : Prop where
  dim_eq : p.wal.dim = cfg.dim
  trusted : p.wal.headerTrusted = true
  counts : p.wal.entryCount.toNat + b + p.pc.uncounted ≤ s.history.length
  lsn_eq : p.wal.committedLsn.toNat = b + p.wal.entryCount.toNat
  file : LogFile cfg s.history p.wal b p.pc
  applied_le : p.appliedLsn.toNat ≤ s.history.length
  pending : s.history.drop p.appliedLsn.toNat = p.pc.pending
  index_eq : p.index = graphAt cfg s.history p.appliedLsn.toNat
  room : s.history.length + p.pc.unwritten.length < 2 ^ 64
  loggable : ∀ e ∈ s.history, Loggable cfg.dim e
  queued : ∀ e ∈ p.pc.unwritten ++ p.queue, Loggable cfg.dim e
  files : FilesOk cfg s.history s.files p.index p.pc
  base_le : b ≤ (latestSnapshotLsn s.files).toNat

/-- A disk in step, between two lives of the process; a fresh file has no header yet. -/
structure Down (cfg : Config) (s : State) (image : Bytes) (b : Nat) : Prop where
  log : image = [] ∧ s.history = [] ∧ b = 0 ∨ ∃ n l, Log cfg s.history b image n l
  room : s.history.length < 2 ^ 64
  loggable : ∀ e ∈ s.history, Loggable cfg.dim e
  files : ∀ f ∈ s.files, Faithful cfg s.history f
  base_le : b ≤ (latestSnapshotLsn s.files).toNat

def Inv (cfg : Config) (s : State) : Prop :=
  ∃ b, (∀ image, s.process = .down image → Down cfg s image b) ∧ (∀ p, s.process = .up p → Up cfg s p b)

theorem Inv.of_up (hp : s.process = .up p) (h : Up cfg s p b) : Inv cfg s := by
  refine ⟨b, fun image hi => ?_, fun q hq => ?_⟩
  · rw [hp] at hi
    cases hi
  · rw [hp] at hq
    cases hq
    exact h

variable {image : Bytes} {files : List SnapshotFile} {batch : List WalEntry}

theorem Inv.of_down (hp : s.process = .down image) (h : Down cfg s image b) : Inv cfg s := by
  refine ⟨b, fun i hi => ?_, fun q hq => ?_⟩
  · rw [hp] at hi
    cases hi
    exact h
  · rw [hp] at hq
    cases hq

theorem inv_init (cfg : Config) : Inv cfg init :=
  .of_down (b := 0) rfl ⟨Or.inl ⟨rfl, rfl, rfl⟩, by decide, by simp [init], by simp [init], Nat.zero_le _⟩

/-! ## Recovery on a disk in step -/

theorem Log.base_le {n l : UInt64} (h : Log cfg hist b image n l) : b ≤ hist.length := by
  have := h.counts
  omega

theorem toNat_add_ofNat {x : UInt64} {k : Nat} (h : x.toNat + k < 2 ^ 64) :
    (x + UInt64.ofNat k).toNat = x.toNat + k := by
  rw [UInt64.toNat_add, UInt64.toNat_ofNat', Nat.mod_eq_of_lt (a := k) (by omega), Nat.mod_eq_of_lt h]

theorem base_eq {n l : UInt64} (h : l.toNat = b + n.toNat) : (l - n).toNat = b := by
  rw [UInt64.toNat_sub_of_le _ _ (UInt64.le_iff_toNat_le.mpr (by omega))]
  omega

/-- A snapshot that does not know of the records to come is as good as before. -/
theorem Faithful.append {f : SnapshotFile} (h : Faithful cfg hist f) (more : List WalEntry) :
    Faithful cfg (hist ++ more) f := by
  intro m hm
  obtain ⟨hle, hload⟩ := h m hm
  refine ⟨by rw [List.length_append]; omega, ?_⟩
  rw [hload, graphAt, graphAt, stateAt_append more hle]

theorem load_faithful (h : ∀ f ∈ files, Faithful cfg hist f) :
    load files = .ok ((latestFooter files).map fun m => (graphAt cfg hist m.lsn.toNat, m.lsn)) :=
  load_of_loads (fun lsn => graphAt cfg hist lsn.toNat) fun f hf m hm => (h f hf m hm).2

theorem latest_le (h : ∀ f ∈ files, Faithful cfg hist f) : (latestSnapshotLsn files).toNat ≤ hist.length := by
  unfold latestSnapshotLsn
  cases hm : latestFooter files with
  | none => exact Nat.zero_le _
  | some m =>
    obtain ⟨f, hf, hfooter⟩ := List.exists_of_findSome?_eq_some hm
    exact (h f (mem_listSnapshots.mp hf) m hfooter).1

theorem recoverInternal_faithful {w w' : WalWriter} {es : List WalEntry} (hfiles : ∀ f ∈ files, Faithful cfg hist f)
    (hread : w.readAll cfg.dim = (es, w')) (hwrap : (w'.committedLsn - w'.entryCount).toNat + es.length < 2 ^ 64) :
    ∃ r, recoverInternal cfg w files = .ok r ∧ r.wal = w' ∧ r.snapshotLsn = latestSnapshotLsn files ∧
      r.replayed = behind (w'.committedLsn - w'.entryCount).toNat (latestSnapshotLsn files).toNat es ∧
      r.index = (graphAt cfg hist (latestSnapshotLsn files).toNat).applyAll cfg.maxElements r.replayed ∧
      r.appliedLsn = latestSnapshotLsn files + UInt64.ofNat r.replayed.length := by
  obtain ⟨r, hr, hwal, hsnap, hreplayed, hindex, happlied⟩ :=
    recoverInternal_eq (load_faithful hfiles) hread hwrap
  have hlsn : r.snapshotLsn = latestSnapshotLsn files := by
    rw [hsnap, latestSnapshotLsn, Option.map_map]
    rfl
  have hgraph : (((latestFooter files).map fun m => (graphAt cfg hist m.lsn.toNat, m.lsn)).map (·.1)).getD
      Graph.empty = graphAt cfg hist (latestSnapshotLsn files).toNat := by
    rw [latestSnapshotLsn]
    cases latestFooter files <;> rfl
  rw [hlsn] at hreplayed happlied
  rw [hgraph] at hindex
  exact ⟨r, hr, hwal, hlsn, hreplayed, hindex, happlied⟩

theorem recoverInternal_ok {w : WalWriter} (hlog : Log cfg hist b w.image w.entryCount w.committedLsn)
    (htrust : w.headerTrusted = true) (hroom : hist.length < 2 ^ 64) (hloggable : ∀ e ∈ hist, Loggable cfg.dim e)
    (hfiles : ∀ f ∈ files, Faithful cfg hist f) (hbase : b ≤ (latestSnapshotLsn files).toNat) :
    ∃ r, recoverInternal cfg w files = .ok r ∧ r.wal = w ∧ r.snapshotLsn = latestSnapshotLsn files ∧
      r.replayed = hist.drop (latestSnapshotLsn files).toNat ∧ r.index = graphAt cfg hist hist.length ∧
      r.appliedLsn.toNat = hist.length := by
  have hread := WalWriter.readAll_walImage hlog.image_eq cfg.dim_pos htrust
    fun e he => hloggable e (List.mem_of_mem_drop he)
  have hb := base_eq hlog.lsn_eq
  have hle := latest_le hfiles
  have hwrap : (w.committedLsn - w.entryCount).toNat + (hist.drop b).length < 2 ^ 64 := by
    have := hlog.base_le
    rw [hb, List.length_drop]
    omega
  obtain ⟨r, hr, hwal, hlsn, hreplayed, hindex, happlied⟩ := recoverInternal_faithful hfiles hread hwrap
  have htail : r.replayed = hist.drop (latestSnapshotLsn files).toNat := by
    rw [hreplayed, hb, behind_drop hbase]
  refine ⟨r, hr, hwal, hlsn, htail, ?_, ?_⟩
  · rw [hindex, htail]
    exact stateAt_drop.trans stateAt_length.symm
  · rw [happlied, htail, toNat_add_ofNat (by rw [List.length_drop]; omega), List.length_drop]
    omega

/-! ## Steady steps keep the invariant -/

theorem Up.recovered (h : Up cfg s p b) (hpc : p.pc = .idle) :
    ∃ r, recoverInternal cfg p.wal s.files = .ok r ∧
      Up cfg { s with process := .up { r with queue := p.queue, pc := .idle } }
        { r with queue := p.queue, pc := .idle } b := by
  obtain ⟨mem, wal, queue, pc⟩ := p
  obtain rfl : pc = .idle := hpc
  have hroom : s.history.length < 2 ^ 64 := h.room
  obtain ⟨r, hr, rfl, -, -, hindex, happlied⟩ :=
    recoverInternal_ok ⟨h.file, h.counts, h.lsn_eq⟩ h.trusted hroom h.loggable h.files h.base_le
  refine ⟨r, hr, ?_⟩
  exact { h with
    applied_le := happlied.le
    pending := List.drop_eq_nil_of_le happlied.ge
    index_eq := by rw [happlied]; exact hindex }

theorem Up.submitted (h : Up cfg s p b) {e : WalEntry} (he : Loggable cfg.dim e) (proc : Process)
    (sub : List WalEntry) :
    Up cfg { s with process := proc, submitted := sub } { p with queue := p.queue ++ [e] } b := by
  refine { h with queued := fun x hx => ?_ }
  rw [← List.append_assoc] at hx
  rcases List.mem_append.mp hx with hx | hx
  · exact h.queued x hx
  · rw [List.mem_singleton.mp hx]
    exact he

theorem Up.flushed (h : Up cfg s p b) (hpc : p.pc = .idle) {n : Nat} (hq : s.history.length + n < 2 ^ 64)
    (proc : Process) :
    Up cfg { s with process := proc } { p with queue := p.queue.drop n, pc := .records [] (p.queue.take n) } b := by
  obtain ⟨mem, wal, queue, pc⟩ := p
  obtain rfl : pc = .idle := hpc
  refine { h with room := ?_, queued := fun e he => h.queued e ?_ }
  · have := List.length_take_le n queue
    change s.history.length + (queue.take n).length < 2 ^ 64
    omega
  · change e ∈ queue.take n ++ queue.drop n at he
    rwa [List.take_append_drop] at he

theorem Up.saving (h : Up cfg s p b) (hpc : p.pc = .idle) (ts : UInt64) (crc : UInt32) (proc : Process) :
    Up cfg { s with process := proc, files := renameIndex ts ⟨crc, some p.index⟩ s.files }
      { p with pc := .saveMeta ts crc } b := by
  obtain ⟨mem, wal, queue, pc⟩ := p
  obtain rfl : pc = .idle := hpc
  refine { h with files := fun f hf => ?_, base_le := ?_ }
  · rcases mem_renameIndex hf with hnew | ⟨hne, hold⟩
    · exact Or.inl hnew
    · exact Or.inr ⟨hne, h.files f hold⟩
  · have hbase := h.base_le
    rwa [latestSnapshotLsn, ← latestFooter_renameIndex ts ⟨crc, some mem.index⟩] at hbase

theorem Up.base_le_length (h : Up cfg s p b) : b ≤ s.history.length := by
  have := h.counts
  omega

theorem Up.record (h : Up cfg s p b) {done rest : List WalEntry} {e : WalEntry}
    (hpc : p.pc = .records done (e :: rest)) (proc : Process) :
    Up cfg { s with process := proc, history := s.history ++ [e] }
      { p with wal := { p.wal with image := p.wal.image ++ WalEntry.serialize e },
               pc := .records (done ++ [e]) rest } b := by
  have hb := h.base_le_length
  obtain ⟨mem, wal, queue, pc⟩ := p
  obtain rfl : pc = .records done (e :: rest) := hpc
  have hlen : (s.history ++ [e]).length = s.history.length + 1 := by simp
  have hcounts := h.counts
  have happlied : mem.appliedLsn.toNat ≤ s.history.length := h.applied_le
  have hroom : s.history.length + (rest.length + 1) < 2 ^ 64 := h.room
  have hfile : wal.image = walImage cfg.dim wal.entryCount wal.committedLsn (s.history.drop b) := h.file
  simp only [Pc.uncounted] at hcounts
  refine { h with
    counts := ?_, file := ?_, applied_le := ?_, pending := ?_, index_eq := ?_, room := ?_, loggable := ?_,
    queued := fun x hx => h.queued x (List.mem_cons_of_mem _ hx), files := fun f hf => (h.files f hf).append [e] }
  · simp only [Pc.uncounted, List.length_append, List.length_singleton]
    omega
  · change wal.image ++ WalEntry.serialize e = _
    have happ := WalWriter.walImage_append cfg.dim wal.entryCount wal.committedLsn (s.history.drop b) [e]
    rw [hfile, List.drop_append_of_le_length hb, ← happ]
    simp
  · change mem.appliedLsn.toNat ≤ (s.history ++ [e]).length
    omega
  · have hpend : s.history.drop mem.appliedLsn.toNat = done := h.pending
    change (s.history ++ [e]).drop _ = done ++ [e]
    rw [List.drop_append_of_le_length happlied, hpend]
  · change mem.index = graphAt cfg (s.history ++ [e]) _
    rw [graphAt, stateAt_append [e] happlied]
    exact h.index_eq
  · change (s.history ++ [e]).length + rest.length < 2 ^ 64
    omega
  · intro x hx
    rcases List.mem_append.mp hx with hx | hx
    · exact h.loggable x hx
    · rw [List.mem_singleton.mp hx]
      exact h.queued e (by simp [Pc.unwritten])

theorem Up.counted (h : Up cfg s p b) {done : List WalEntry} (hpc : p.pc = .records done []) (proc : Process) :
    Up cfg { s with process := proc }
      { p with wal := { p.wal with entryCount := p.wal.entryCount + UInt64.ofNat done.length,
                                   committedLsn := p.wal.committedLsn + UInt64.ofNat done.length },
               pc := .header done } b := by
  obtain ⟨mem, wal, queue, pc⟩ := p
  obtain rfl : pc = .records done [] := hpc
  have hcounts : wal.entryCount.toNat + b + done.length ≤ s.history.length := h.counts
  have hroom : s.history.length < 2 ^ 64 := h.room
  have hlsn : wal.committedLsn.toNat = b + wal.entryCount.toNat := h.lsn_eq
  have hentry := toNat_add_ofNat (x := wal.entryCount) (k := done.length) (by omega)
  have hcommitted := toNat_add_ofNat (x := wal.committedLsn) (k := done.length) (by omega)
  refine { h with
    counts := ?_, lsn_eq := ?_, file := ⟨wal.entryCount, wal.committedLsn, ?_, hlsn, h.file⟩ }
  · change (wal.entryCount + UInt64.ofNat done.length).toNat + b + 0 ≤ s.history.length
    omega
  · change (wal.committedLsn + UInt64.ofNat done.length).toNat = b + (wal.entryCount + UInt64.ofNat done.length).toNat
    omega
  · change wal.entryCount.toNat ≤ (wal.entryCount + UInt64.ofNat done.length).toNat
    omega

theorem Up.headed (h : Up cfg s p b) (hpc : p.pc = .header batch) (proc : Process) :
    Up cfg { s with process := proc } { p with wal := (p.wal.rewriteHeaderLocked none).1, pc := .sync batch } b := by
  obtain ⟨mem, wal, queue, pc⟩ := p
  obtain rfl : pc = .header batch := hpc
  obtain ⟨n, l, -, -, hfile⟩ := h.file
  have hrewrite := WalWriter.rewriteHeader_walImage _ (WalWriter.length_makeHeader cfg.dim n l) hfile
  simp only at hrewrite ⊢
  rw [hrewrite]
  refine { h with trusted := rfl, file := ?_ }
  change walImage wal.dim wal.entryCount wal.committedLsn (s.history.drop b) = _
  rw [show wal.dim = cfg.dim from h.dim_eq]

theorem Up.synced (h : Up cfg s p b) (hpc : p.pc = .sync batch) (proc : Process) :
    Up cfg { s with process := proc } { p with pc := .apply batch batch } b := by
  obtain ⟨mem, wal, queue, pc⟩ := p
  obtain rfl : pc = .sync batch := hpc
  exact { h with }

theorem Up.applied (h : Up cfg s p b) {e : WalEntry} {rest : List WalEntry} (hpc : p.pc = .apply (e :: rest) batch)
    (proc : Process) :
    WalEntry.deserialize cfg.dim (WalEntry.serialize e) = .ok e ∧
      Up cfg { s with process := proc }
        { p with toMemory := applyEntryLocked cfg p.toMemory e, pc := .apply rest batch } b := by
  obtain ⟨mem, wal, queue, pc⟩ := p
  obtain rfl : pc = .apply (e :: rest) batch := hpc
  have hpend : s.history.drop mem.appliedLsn.toNat = e :: rest := h.pending
  have hroom : s.history.length < 2 ^ 64 := h.room
  have hlen := congrArg List.length hpend
  rw [List.length_drop, List.length_cons] at hlen
  have hsucc : (mem.appliedLsn + 1).toNat = mem.appliedLsn.toNat + 1 :=
    toNat_add_ofNat (x := mem.appliedLsn) (k := 1) (by omega)
  refine ⟨WalEntry.deserialize_serialize (h.loggable e (List.mem_of_mem_drop (by rw [hpend]; simp))), ?_⟩
  refine { h with applied_le := ?_, pending := ?_, index_eq := ?_ }
  · change (mem.appliedLsn + 1).toNat ≤ s.history.length
    omega
  · change s.history.drop (mem.appliedLsn + 1).toNat = rest
    rw [hsucc, ← List.drop_drop, hpend]
    rfl
  · change mem.index.applyEntry cfg.maxElements e = graphAt cfg s.history (mem.appliedLsn + 1).toNat
    rw [hsucc, graphAt, stateAt_succ hpend, show mem.index = graphAt cfg s.history _ from h.index_eq]
    rfl

theorem Up.acknowledged (h : Up cfg s p b) (hpc : p.pc = .apply [] batch) (proc : Process) (acked : List WalEntry) :
    Up cfg { s with process := proc, acked } { p with pc := .idle } b := by
  obtain ⟨mem, wal, queue, pc⟩ := p
  obtain rfl : pc = .apply [] batch := hpc
  exact { h with }

theorem Up.applied_eq (h : Up cfg s p b) (hpend : p.pc.pending = []) :
    p.appliedLsn.toNat = s.history.length := by
  have hle := h.applied_le
  have hlen := congrArg List.length (h.pending.trans hpend)
  rw [List.length_drop, List.length_nil] at hlen
  omega

theorem Up.committed (h : Up cfg s p b) {ts : UInt64} {crc : UInt32} (hpc : p.pc = .saveMeta ts crc)
    (proc : Process) :
    Up cfg { s with process := proc, files := writeFooter ts ⟨p.appliedLsn, crc⟩ s.files }
      { p with pc := .clean } b := by
  have happlied := h.applied_eq (by rw [hpc]; rfl)
  have hb := h.base_le_length
  obtain ⟨mem, wal, queue, pc⟩ := p
  obtain rfl : pc = .saveMeta ts crc := hpc
  have hindex : mem.index = graphAt cfg s.history mem.appliedLsn.toNat := h.index_eq
  refine { h with files := fun f hf m hm => ?_, base_le := ?_ }
  · rcases mem_writeFooter.mp hf with ⟨f', hf', hts, rfl⟩ | ⟨hf, hts⟩
    · rcases h.files f' hf' with ⟨-, hnew⟩ | ⟨hne, -⟩
      · cases hm
        refine ⟨h.applied_le, ?_⟩
        simp [loaded, hnew, hindex]
      · exact absurd hts hne
    · rcases h.files f hf with ⟨hts', -⟩ | ⟨-, hfaithful⟩
      · exact absurd hts' hts
      · exact hfaithful m hm
  · change b ≤ (latestSnapshotLsn (writeFooter ts ⟨mem.appliedLsn, crc⟩ s.files)).toNat
    rw [latestSnapshotLsn]
    rcases latestFooter_writeFooter ts ⟨mem.appliedLsn, crc⟩ s.files with hnew | hold
    · rw [hnew]
      exact hb.trans happlied.ge
    · rw [hold]
      exact h.base_le

theorem Up.cleaned (h : Up cfg s p b) (hpc : p.pc = .clean) (hq : SteadyAdvance cfg s p p.pc) (proc : Process) :
    Up cfg { s with process := proc, files := cleanOldSnapshots (keepCount cfg.snapshotKeepCount) s.files }
      { p with pc := .truncate } b := by
  rw [hpc] at hq
  obtain ⟨mem, wal, queue, pc⟩ := p
  obtain rfl : pc = .clean := hpc
  refine { h with files := fun f hf => h.files f (mem_of_mem_clean hf), base_le := ?_ }
  have hbase := h.base_le
  rwa [latestSnapshotLsn, ← hq] at hbase

theorem Up.truncated (h : Up cfg s p b) (hpc : p.pc = .truncate) (hq : SteadyAdvance cfg s p p.pc) (proc : Process) :
    Up cfg { s with process := proc } { p with wal := ftruncate p.wal, pc := .truncateHeader }
      s.history.length := by
  rw [hpc] at hq
  have happlied := h.applied_eq (by rw [hpc]; rfl)
  have hb := h.base_le_length
  obtain ⟨mem, wal, queue, pc⟩ := p
  obtain rfl : pc = .truncate := hpc
  obtain ⟨hcount, hlatest⟩ := hq
  have hfile : wal.image = walImage cfg.dim wal.entryCount wal.committedLsn (s.history.drop b) := h.file
  have hlsn : wal.committedLsn.toNat = b + wal.entryCount.toNat := h.lsn_eq
  simp only at hcount
  rw [hfile, WalWriter.scanRecords_walImage _ _ fun e he => h.loggable e (List.mem_of_mem_drop he),
    List.length_drop] at hcount
  refine { h with counts := ?_, lsn_eq := ?_, file := ⟨rfl, rfl, wal.entryCount, ?_⟩, base_le := ?_ }
  · change 0 + s.history.length + 0 ≤ s.history.length
    omega
  · change wal.committedLsn.toNat = s.history.length + 0
    omega
  · change wal.image.take WalWriter.kHeaderSize = _
    rw [hfile, WalWriter.walImage_take]
    rfl
  · change s.history.length ≤ (latestSnapshotLsn s.files).toNat
    rw [hlatest]
    exact happlied.ge

theorem Up.truncatedHeader (h : Up cfg s p b) (hpc : p.pc = .truncateHeader) (proc : Process) :
    Up cfg { s with process := proc }
      { p with wal := (p.wal.rewriteHeaderLocked none).1, pc := .truncateSync } b := by
  obtain ⟨mem, wal, queue, pc⟩ := p
  obtain rfl : pc = .truncateHeader := hpc
  obtain ⟨rfl, hentry, n, hfile⟩ := h.file
  have hrewrite := WalWriter.rewriteHeader_walImage _ (WalWriter.length_makeHeader cfg.dim n _) hfile
  simp only at hrewrite ⊢
  rw [hrewrite]
  refine { h with trusted := rfl, file := ?_ }
  change walImage wal.dim wal.entryCount wal.committedLsn [] =
    walImage cfg.dim wal.entryCount wal.committedLsn (s.history.drop s.history.length)
  rw [show wal.dim = cfg.dim from h.dim_eq, List.drop_length]

theorem Up.snapshotted (h : Up cfg s p b) (hpc : p.pc = .truncateSync) (proc : Process) :
    Up cfg { s with process := proc } { p with pc := .idle } b := by
  obtain ⟨mem, wal, queue, pc⟩ := p
  obtain rfl : pc = .truncateSync := hpc
  exact { h with }

/-! ## Crash and reopening -/

theorem headerEntryCount_walImage (dim : Nat) (n l : UInt64) (es : List WalEntry) :
    headerEntryCount (walImage dim n l es) = n.toNat := by
  obtain ⟨hn, -⟩ := WalWriter.header_fields dim n l (es.map WalEntry.serialize).flatten
  rw [headerEntryCount, walImage, hn, leNat_leBytes_of_lt n.toNat_lt]

theorem Up.crash_log (h : Up cfg s p b) (hq : SteadyCrash s p p.pc) :
    ∃ n l, Log cfg s.history b p.wal.image n l := by
  have hcounts := h.counts
  have hfile := h.file
  cases hpc : p.pc with
  | header batch =>
    rw [hpc] at hfile hcounts
    obtain ⟨n, l, hn, hl, himage⟩ := hfile
    exact ⟨n, l, himage, by simp only [Pc.uncounted] at hcounts; omega, hl⟩
  | truncateHeader =>
    rw [hpc] at hfile hq
    obtain ⟨hb, hentry, n, himage⟩ := hfile
    have hlsn := h.lsn_eq
    rw [SteadyCrash, himage, headerEntryCount_walImage] at hq
    refine ⟨n, p.wal.committedLsn, ?_, by omega, ?_⟩
    · rw [himage, hb, List.drop_length]
    · rw [hlsn, hentry, hq]
      rfl
  | _ =>
    rw [hpc] at hfile
    exact ⟨_, _, hfile, by omega, h.lsn_eq⟩

theorem Up.crash_files (h : Up cfg s p b) (hq : SteadyCrash s p p.pc) : ∀ f ∈ s.files, Faithful cfg s.history f := by
  have hfiles := h.files
  cases hpc : p.pc with
  | saveMeta ts crc =>
    rw [hpc] at hfiles hq
    intro f hf m hm
    rcases hfiles f hf with ⟨hts, hnew⟩ | ⟨-, hfaithful⟩
    · rcases hq f hf hts with hnone | hfooter
      · rw [hnone] at hm
        cases hm
      · rw [hfooter] at hm
        cases hm
        exact ⟨h.applied_le, by simp [loaded, hfooter, hnew, h.index_eq]⟩
    · exact hfaithful m hm
  | _ =>
    rwa [hpc] at hfiles

theorem Up.crashed (h : Up cfg s p b) (hq : SteadyCrash s p p.pc) (past : List (List WalEntry)) (proc : Process) :
    Down cfg { s with process := proc, past, submitted := [] } p.wal.image b where
  log := Or.inr (h.crash_log hq)
  room := by
    have := h.room
    change s.history.length < 2 ^ 64
    omega
  loggable := h.loggable
  files := h.crash_files hq
  base_le := h.base_le

theorem Down.fields (h : Down cfg s image b) :
    logBase image = b ∧ (scanRecords cfg.dim image).1 = s.history.drop b ∧
      ∃ w, WalWriter.openWal cfg.dim image = .ok w ∧ w.dim = cfg.dim ∧ w.headerTrusted = true ∧
        Log cfg s.history b w.image w.entryCount w.committedLsn ∧ headerEntryCount image = w.entryCount.toNat := by
  rcases h.log with ⟨rfl, hhist, rfl⟩ | ⟨n, l, hlog⟩
  · refine ⟨rfl, by rw [hhist]; rfl, ?_⟩
    refine ⟨_, by rw [WalWriter.openWal, if_neg cfg.dim_pos.ne']; rfl, rfl, rfl, ⟨?_, by simp, rfl⟩, rfl⟩
    simp [walImage, hhist]
  · have hn := headerEntryCount_walImage cfg.dim n l (s.history.drop b)
    have hl : headerCommittedLsn (walImage cfg.dim n l (s.history.drop b)) = l.toNat := by
      obtain ⟨-, hl, -⟩ := WalWriter.header_fields cfg.dim n l ((s.history.drop b).map WalEntry.serialize).flatten
      rw [headerCommittedLsn, walImage, hl, leNat_leBytes_of_lt l.toNat_lt]
    rw [hlog.image_eq]
    refine ⟨?_, ?_, _, WalWriter.openWal_walImage cfg.dim_pos n l _, rfl, rfl, ⟨rfl, hlog.counts, hlog.lsn_eq⟩, hn⟩
    · rw [logBase, hn, hl, hlog.lsn_eq, Nat.add_sub_cancel]
    · rw [WalWriter.scanRecords_walImage _ _ fun e he => h.loggable e (List.mem_of_mem_drop he)]

theorem Down.opened (h : Down cfg s image b) :
    ∃ w r, WalWriter.openWal cfg.dim image = .ok w ∧ recoverInternal cfg w s.files = .ok r ∧
      Log cfg s.history b w.image w.entryCount w.committedLsn ∧ r.wal = w ∧
      r.snapshotLsn = latestSnapshotLsn s.files ∧
      r.replayed = s.history.drop (latestSnapshotLsn s.files).toNat ∧
      r.index = graphAt cfg s.history s.history.length ∧ r.appliedLsn.toNat = s.history.length ∧
      Up cfg { s with process := .up (ready r) } (ready r) b := by
  obtain ⟨-, -, w, hopen, hdim, htrust, hlog, -⟩ := h.fields
  obtain ⟨r, hr, rfl, hlsn, hreplayed, hindex, happlied⟩ :=
    recoverInternal_ok hlog htrust h.room h.loggable h.files h.base_le
  refine ⟨_, r, hopen, hr, hlog, rfl, hlsn, hreplayed, hindex, happlied, ?_⟩
  exact {
    dim_eq := hdim
    trusted := htrust
    counts := hlog.counts
    lsn_eq := hlog.lsn_eq
    file := hlog.image_eq
    applied_le := happlied.le
    pending := List.drop_eq_nil_of_le happlied.ge
    index_eq := by
      change r.index = graphAt cfg s.history r.appliedLsn.toNat
      rw [happlied]
      exact hindex
    room := h.room
    loggable := h.loggable
    queued := by simp [ready, Pc.unwritten]
    files := h.files
    base_le := h.base_le }

theorem Inv.step (h : Inv cfg s) (hq : Steady cfg s a) (hstep : step cfg s a = some s') : Inv cfg s' := by
  obtain ⟨b, hdown, hup⟩ := h
  cases step_next hstep with
  | openFailed hp herr =>
    obtain ⟨w, r, hopen, -⟩ := (hdown _ hp).opened
    rw [hopen] at herr
    cases herr
  | recoveryFailed hp hopen herr =>
    obtain ⟨w, r, hopen', hr, -⟩ := (hdown _ hp).opened
    rw [hopen'] at hopen
    cases hopen
    rw [hr] at herr
    cases herr
  | opened hp hopen hr =>
    obtain ⟨w, r, hopen', hr', -, -, -, -, -, -, h⟩ := (hdown _ hp).opened
    rw [hopen'] at hopen
    cases hopen
    rw [hr'] at hr
    cases hr
    exact .of_up rfl h
  | notRecovered hp _ => exact ⟨b, hdown, hup⟩
  | recovered hp hpc hr =>
    obtain ⟨r, hr', h⟩ := (hup _ hp).recovered hpc
    rw [hr'] at hr
    cases hr
    exact .of_up rfl h
  | submitted hp ha => exact .of_up rfl ((hup _ hp).submitted (ha.loggable fun _ _ _ hadd => by rwa [hadd] at hq) _ _)
  | flushed hp hpc _ => exact .of_up rfl ((hup _ hp).flushed hpc hq _)
  | saving hp hpc ts crc => exact .of_up rfl ((hup _ hp).saving hpc ts crc _)
  | record hp hpc => exact .of_up rfl ((hup _ hp).record hpc _)
  | counted hp hpc => exact .of_up rfl ((hup _ hp).counted hpc _)
  | headed hp hpc => exact .of_up rfl ((hup _ hp).headed hpc _)
  | synced hp hpc => exact .of_up rfl ((hup _ hp).synced hpc _)
  | applied hp hpc hread =>
    obtain ⟨hread', h⟩ := (hup _ hp).applied hpc s.process
    rw [hread'] at hread
    cases hread
    exact .of_up rfl ((hup _ hp).applied hpc _).2
  | unreadable hp hpc herr =>
    obtain ⟨hread, -⟩ := (hup _ hp).applied hpc s.process
    rw [hread] at herr
    cases herr
  | acknowledged hp hpc => exact .of_up rfl ((hup _ hp).acknowledged hpc _ _)
  | committed hp hpc => exact .of_up rfl ((hup _ hp).committed hpc _)
  | cleaned hp hpc =>
    simp only [Steady, hp] at hq
    exact .of_up rfl ((hup _ hp).cleaned hpc hq _)
  | truncated hp hpc =>
    simp only [Steady, hp] at hq
    exact .of_up rfl ((hup _ hp).truncated hpc hq _)
  | truncatedHeader hp hpc => exact .of_up rfl ((hup _ hp).truncatedHeader hpc _)
  | snapshotted hp hpc => exact .of_up rfl ((hup _ hp).snapshotted hpc _)
  | crashed hp =>
    simp only [Steady, hp] at hq
    exact .of_down rfl ((hup _ hp).crashed hq _ _)

theorem inv_of_run {acts : List Act} (hq : Along (step cfg) (Steady cfg) init acts)
    (h : run (step cfg) init acts = some s) : Inv cfg s :=
  run_inv Inv.step (inv_init cfg) hq h

end Cortrix.Store.Phnsw.PHnsw
