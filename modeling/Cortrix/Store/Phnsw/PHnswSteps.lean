import Cortrix.Store.Phnsw.PHnsw

/-!
# What one step of the index can do

* `Next cfg s a s'` : the transitions, one constructor for each thing a step can do; `step_next` : every step
  is one of them.
-/

namespace Cortrix.Store.Phnsw.PHnsw
open Lib
open SnapshotManager (load renameIndex writeFooter cleanOldSnapshots keepCount)

def Act.Submits (cfg : Config) : Act → WalEntry → Prop
  | .addPoint blockId vec now, e =>
    vec.length = cfg.dim ∧ e = { type := .insert, timestampMs := now, blockId, vector := vec }
  | .markDelete blockId now, e => e = { type := .delete, timestampMs := now, blockId }
  | _, _ => False

inductive Next (cfg : Config) (s : State) : Act → State → Prop
  | openFailed {image : Bytes} (hp : s.process = .down image) {st : Status}
      (h : WalWriter.openWal cfg.dim image = .error st) : Next cfg s .open_ s
  | recoveryFailed {image : Bytes} (hp : s.process = .down image) {wal : WalWriter} {st : Status}
      (hopen : WalWriter.openWal cfg.dim image = .ok wal) (h : recoverInternal cfg wal s.files = .error st) :
      Next cfg s .open_ { s with process := .down wal.image }
  | opened {image : Bytes} (hp : s.process = .down image) {wal : WalWriter} {r : Recovered}
      (hopen : WalWriter.openWal cfg.dim image = .ok wal) (h : recoverInternal cfg wal s.files = .ok r) :
      Next cfg s .open_ { s with process := .up (ready r) }
  | notRecovered {p : Running} (hp : s.process = .up p) {st : Status}
      (h : recoverInternal cfg p.wal s.files = .error st) : Next cfg s .recover s
  | recovered {p : Running} (hp : s.process = .up p) (hpc : p.pc = .idle) {r : Recovered}
      (h : recoverInternal cfg p.wal s.files = .ok r) :
      Next cfg s .recover { s with process := .up { r with queue := p.queue, pc := .idle } }
  | submitted {p : Running} (hp : s.process = .up p) {a : Act} {e : WalEntry} (ha : a.Submits cfg e) :
      Next cfg s a (submit s p e)
  | flushed {p : Running} (hp : s.process = .up p) (hpc : p.pc = .idle) {n : Nat} (hn : n ≤ p.queue.length) :
      Next cfg s (.flush n)
        { s with process := .up { p with queue := p.queue.drop n, pc := .records [] (p.queue.take n) } }
  | saving {p : Running} (hp : s.process = .up p) (hpc : p.pc = .idle) (ts : UInt64) (crc : UInt32) :
      Next cfg s (.snapshot ts crc)
        { s with process := .up { p with pc := .saveMeta ts crc },
                 files := renameIndex ts ⟨crc, some p.index⟩ s.files }
  | record {p : Running} (hp : s.process = .up p) {done rest : List WalEntry} {e : WalEntry}
      (hpc : p.pc = .records done (e :: rest)) :
      Next cfg s .advance
        { s with process := .up { p with wal := { p.wal with image := p.wal.image ++ WalEntry.serialize e },
                                         pc := .records (done ++ [e]) rest },
                 history := s.history ++ [e] }
  | counted {p : Running} (hp : s.process = .up p) {done : List WalEntry} (hpc : p.pc = .records done []) :
      Next cfg s .advance
        { s with process := .up { p with
          wal := { p.wal with entryCount := p.wal.entryCount + UInt64.ofNat done.length,
                              committedLsn := p.wal.committedLsn + UInt64.ofNat done.length },
          pc := .header done } }
  | headed {p : Running} (hp : s.process = .up p) {batch : List WalEntry} (hpc : p.pc = .header batch) :
      Next cfg s .advance
        { s with process := .up { p with wal := (p.wal.rewriteHeaderLocked none).1, pc := .sync batch } }
  | synced {p : Running} (hp : s.process = .up p) {batch : List WalEntry} (hpc : p.pc = .sync batch) :
      Next cfg s .advance { s with process := .up { p with pc := .apply batch batch } }
  | applied {p : Running} (hp : s.process = .up p) {e e' : WalEntry} {rest batch : List WalEntry}
      (hpc : p.pc = .apply (e :: rest) batch)
      (h : WalEntry.deserialize cfg.dim (WalEntry.serialize e) = .ok e') :
      Next cfg s .advance
        { s with process := .up { p with toMemory := applyEntryLocked cfg p.toMemory e', pc := .apply rest batch } }
  | unreadable {p : Running} (hp : s.process = .up p) {e : WalEntry} {rest batch : List WalEntry}
      (hpc : p.pc = .apply (e :: rest) batch) {err : DecodeError}
      (h : WalEntry.deserialize cfg.dim (WalEntry.serialize e) = .error err) :
      Next cfg s .advance { s with process := .up { p with pc := .idle } }
  | acknowledged {p : Running} (hp : s.process = .up p) {batch : List WalEntry} (hpc : p.pc = .apply [] batch) :
      Next cfg s .advance { s with process := .up { p with pc := .idle }, acked := s.acked ++ batch }
  | committed {p : Running} (hp : s.process = .up p) {ts : UInt64} {crc : UInt32} (hpc : p.pc = .saveMeta ts crc) :
      Next cfg s .advance
        { s with process := .up { p with pc := .clean }, files := writeFooter ts ⟨p.appliedLsn, crc⟩ s.files }
  | cleaned {p : Running} (hp : s.process = .up p) (hpc : p.pc = .clean) :
      Next cfg s .advance
        { s with process := .up { p with pc := .truncate },
                 files := cleanOldSnapshots (keepCount cfg.snapshotKeepCount) s.files }
  | truncated {p : Running} (hp : s.process = .up p) (hpc : p.pc = .truncate) :
      Next cfg s .advance { s with process := .up { p with wal := ftruncate p.wal, pc := .truncateHeader } }
  | truncatedHeader {p : Running} (hp : s.process = .up p) (hpc : p.pc = .truncateHeader) :
      Next cfg s .advance
        { s with process := .up { p with wal := (p.wal.rewriteHeaderLocked none).1, pc := .truncateSync } }
  | snapshotted {p : Running} (hp : s.process = .up p) (hpc : p.pc = .truncateSync) :
      Next cfg s .advance { s with process := .up { p with pc := .idle } }
  | crashed {p : Running} (hp : s.process = .up p) :
      Next cfg s .crash
        { s with process := .down p.wal.image, past := s.past ++ [s.submitted], submitted := [] }

variable {cfg : Config} {s s' : State} {a : Act}

theorem Act.Submits.loggable {e : WalEntry} (ha : a.Submits cfg e)
    (hroom : ∀ blockId vec now, a = .addPoint blockId vec now → 21 + 4 * cfg.dim < 2 ^ 32) :
    WalEntry.Loggable cfg.dim e := by
  cases a with
  | addPoint blockId vec now =>
    obtain ⟨hlen, rfl⟩ := ha
    refine ⟨fun _ => ⟨fun _ => hlen, ?_⟩, rfl⟩
    rw [hlen]
    exact hroom _ _ _ rfl
  | markDelete blockId now =>
    cases ha
    exact ⟨fun htype => absurd htype (by simp), rfl⟩
  | _ => exact ha.elim

theorem openIndex_next {image : Bytes} (hp : s.process = .down image) :
    Next cfg s .open_ (openIndex cfg s image) := by
  unfold openIndex
  split
  · exact .openFailed hp ‹_›
  · rename_i wal hopen
    split
    · exact .recoveryFailed hp hopen ‹_›
    · exact .opened hp hopen ‹_›

theorem advance_next {p : Running} (hp : s.process = .up p) (h : advance cfg s p = some s') :
    Next cfg s .advance s' := by
  unfold advance at h
  split at h
  · cases h
  · cases h
    exact .record hp ‹_›
  · cases h
    exact .counted hp ‹_›
  · cases h
    exact .headed hp ‹_›
  · cases h
    exact .synced hp ‹_›
  · rename_i e rest batch hpc
    split at h
    · cases h
      exact .applied hp hpc ‹_›
    · cases h
      exact .unreadable hp hpc ‹_›
  · cases h
    exact .acknowledged hp ‹_›
  · cases h
    exact .committed hp ‹_›
  · cases h
    exact .cleaned hp ‹_›
  · cases h
    exact .truncated hp ‹_›
  · cases h
    exact .truncatedHeader hp ‹_›
  · cases h
    exact .snapshotted hp ‹_›

theorem step_next (h : step cfg s a = some s') : Next cfg s a s' := by
  unfold step at h
  cases hp : s.process with
  | down image =>
    rw [hp] at h
    cases a with
    | open_ =>
      cases h
      exact openIndex_next hp
    | _ => cases h
  | up p =>
    rw [hp] at h
    cases a with
    | open_ => cases h
    | recover =>
      simp only at h
      split at h
      · rename_i hpc
        cases h
        unfold recover
        split
        · exact .notRecovered hp ‹_›
        · exact .recovered hp hpc ‹_›
      · cases h
    | addPoint blockId vec now =>
      simp only at h
      split at h
      · rename_i hlen
        cases h
        exact .submitted hp ⟨hlen, rfl⟩
      · cases h
    | markDelete blockId now =>
      cases h
      exact .submitted hp rfl
    | flush n =>
      simp only at h
      split at h
      · rename_i hn
        cases h
        exact .flushed hp hn.1 hn.2.2
      · cases h
    | snapshot ts crc =>
      simp only at h
      split at h
      · rename_i hpc
        cases h
        exact .saving hp hpc ts crc
      · cases h
    | advance => exact advance_next hp h
    | crash =>
      cases h
      exact .crashed hp

theorem recoverInternal_eq {wal wal' : WalWriter} {files : List SnapshotFile} {es : List WalEntry}
    {loaded : Option (Graph × UInt64)} (hload : load files = .ok loaded)
    (hread : wal.readAll cfg.dim = (es, wal'))
    (hwrap : (wal'.committedLsn - wal'.entryCount).toNat + es.length < 2 ^ 64) :
    ∃ r, recoverInternal cfg wal files = .ok r ∧ r.wal = wal' ∧
      r.snapshotLsn = (loaded.map (·.2)).getD 0 ∧
      r.replayed = behind (wal'.committedLsn - wal'.entryCount).toNat r.snapshotLsn.toNat es ∧
      r.index = ((loaded.map (·.1)).getD Graph.empty).applyAll cfg.maxElements r.replayed ∧
      r.appliedLsn = r.snapshotLsn + UInt64.ofNat r.replayed.length := by
  unfold recoverInternal
  rw [hload]
  simp only
  rw [hread]
  refine ⟨_, rfl, rfl, rfl, replayed_eq hwrap, ?_, ?_⟩
  · rw [replayLoop_eq]
  · rw [replayLoop_eq]

end Cortrix.Store.Phnsw.PHnsw
