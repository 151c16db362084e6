import Cortrix.Store.GroupCommitWriter
import Cortrix.Store.PendingLogWriter
import Cortrix.Store.Phnsw.WalWriter

/-!
# Acknowledged records and failed batches

Runs of a log writer under its group committer: batches whose writes may fail after any prefix of their
bytes, and restarts that reopen the file and read it back. A failed batch leaves a torn frame at the end of
the file and nothing takes it away before the next restart, so the next batch is appended behind it, is
acknowledged, and is cut off by the next `ReadAll`.

* `acked_recovered` : in runs whose batches are `AtBoundary`, what was acknowledged is read back in order;
* `acked_lost` : a torn frame, then an acknowledged record that is gone.
-/

namespace Cortrix.Store
open Lib
open GroupCommitWriter (flushStatus flushStatus_isOk)

/-! ## pending.wal -/

structure PendingLogRun where
  image : Bytes
  acked : List PendingEntry

inductive PendingLogOp
  | batch (records : List PendingEntry) (fault : Option IoFault) (syncFault : Option String)
  | restart

namespace PendingLogRun
open PendingLogWriter
open PendingEntry (serialize stored Fits)

def fresh : PendingLogRun := ⟨makeHeader, []⟩

def step (s : PendingLogRun) : PendingLogOp → Option PendingLogRun
  | .batch records fault syncFault =>
    let (image, st) := writeBatch s.image (records.map serialize) fault
    some { image, acked := if (flushStatus st (sync syncFault)).isOk then s.acked ++ records else s.acked }
  | .restart =>
    match openLog s.image with
    | .ok image => some { s with image := (readAll image).2 }
    | .error _ => none

/-- A batch whose writes and sync all succeed starts at a frame boundary, with records that fit. -/
def AtBoundary (s : PendingLogRun) : PendingLogOp → Prop
  | .batch records fault syncFault =>
    (∀ f ∈ fault, (records.map serialize).flatten.length ≤ f.bytes) → syncFault = none →
      (scanRecords s.image).2 = s.image.length ∧ ∀ e ∈ records, Fits e
  | .restart => True

instance (s : PendingLogRun) (op : PendingLogOp) : Decidable (AtBoundary s op) :=
  match op with
  | .batch .. => inferInstanceAs (Decidable (_ → _))
  | .restart => .isTrue trivial

structure Inv (s : PendingLogRun) : Prop where
  headed : WellHeaded s.image
  acked : (s.acked.map stored).Sublist (scanRecords s.image).1

theorem inv_fresh : Inv fresh := ⟨WellHeaded.makeHeader_self, List.nil_sublist _⟩

theorem sync_isOk (syncFault : Option String) : (PendingLogWriter.sync syncFault).isOk = true ↔ syncFault = none := by
  cases syncFault <;> simp [PendingLogWriter.sync, Status.isOk, Status.okStatus, pwlStatus]

theorem writeBatch_cases (image : Bytes) (frames : List Bytes) (fault : Option IoFault) :
    (writeBatch image frames fault).2.isOk = true ∧ (writeBatch image frames fault).1 = image ++ frames.flatten ∧
        (∀ f ∈ fault, frames.flatten.length ≤ f.bytes) ∨
      (writeBatch image frames fault).2.isOk = false ∧
        ∃ post, (writeBatch image frames fault).1 = image ++ post := by
  unfold writeBatch
  rcases appendAll_cases image frames fault with ⟨hnone, himage⟩ | ⟨f, n, hsome, -, himage⟩
  · rw [show appendAll image frames fault = (image ++ frames.flatten, none) from Prod.ext himage hnone]
    exact Or.inl ⟨rfl, rfl, appendAll_eq_none.mp hnone⟩
  · rw [show appendAll image frames fault = (image ++ frames.flatten.take n, some f) from Prod.ext himage hsome]
    exact Or.inr ⟨rfl, _, rfl⟩

theorem inv_step {s s' : PendingLogRun} {op : PendingLogOp} (hi : Inv s) (hq : AtBoundary s op)
    (h : step s op = some s') : Inv s' := by
  have hlen := hi.headed.le_length
  cases op with
  | batch records fault syncFault =>
    simp only [step, Option.some.injEq] at h
    subst h
    rcases writeBatch_cases s.image (records.map serialize) fault with ⟨hok, himage, hfault⟩ | ⟨hbad, post, himage⟩
    · refine ⟨by rw [himage]; exact hi.headed.append _, ?_⟩
      simp only [himage, flushStatus_isOk, hok, true_and, sync_isOk]
      split
      · rename_i hsync
        obtain ⟨hend, hfit⟩ := hq hfault hsync
        rw [scanRecords_append _ hlen hend hfit, List.map_append]
        exact hi.acked.append_right _
      · exact hi.acked.trans (scanRecords_mono hlen _).sublist
    · refine ⟨by rw [himage]; exact hi.headed.append _, ?_⟩
      simp only [himage, flushStatus_isOk, hbad, Bool.false_eq_true, false_and, if_false]
      exact hi.acked.trans (scanRecords_mono hlen _).sublist
  | restart =>
    simp only [step, hi.headed.openLog_eq, Option.some.injEq] at h
    subst h
    refine ⟨hi.headed.readAll, ?_⟩
    rw [scanRecords_readAll hlen]
    exact hi.acked

end PendingLogRun

/-! ## hnsw.wal -/

structure WalRun where
  wal : Phnsw.WalWriter
  acked : List Phnsw.WalEntry

inductive WalOp
  | batch (records : List Phnsw.WalEntry) (fault headerFault : Option IoFault) (syncFault : Option String)
  | restart

namespace WalRun
open Phnsw Phnsw.WalWriter
open Phnsw.WalEntry (serialize stored Fits)

def fresh (dim : Nat) : WalRun :=
  ⟨{ image := makeHeader dim 0 0, dim, entryCount := 0, committedLsn := 0, headerTrusted := true }, []⟩

def step (dim : Nat) (s : WalRun) : WalOp → Option WalRun
  | .batch records fault headerFault syncFault =>
    let (wal, st) := writeBatch s.wal (records.map serialize) fault headerFault
    some { wal, acked := if (flushStatus st (sync syncFault)).isOk then s.acked ++ records else s.acked }
  | .restart =>
    match openWal dim s.wal.image with
    | .ok wal => some { s with wal := (readAll wal dim).2 }
    | .error _ => none

/-- A batch whose writes and sync all succeed starts at a frame boundary, with records that fit. -/
def AtBoundary (dim : Nat) (s : WalRun) : WalOp → Prop
  | .batch records fault headerFault syncFault =>
    (∀ f ∈ fault, (records.map serialize).flatten.length ≤ f.bytes) →
      (∀ f ∈ headerFault, WalWriter.kHeaderSize ≤ f.bytes) → syncFault = none →
        (scanRecords dim s.wal.image).2 = s.wal.image.length ∧ ∀ e ∈ records, Fits dim e
  | .restart => True

instance (dim : Nat) (s : WalRun) (op : WalOp) : Decidable (AtBoundary dim s op) :=
  match op with
  | .batch .. => inferInstanceAs (Decidable (_ → _))
  | .restart => .isTrue trivial

structure Inv (dim : Nat) (s : WalRun) : Prop where
  dim_eq : s.wal.dim = dim
  headed : Headed dim s.wal.image
  acked : (s.acked.map stored).Sublist (scanRecords dim s.wal.image).1

theorem inv_fresh (dim : Nat) : Inv dim (fresh dim) :=
  ⟨rfl, by simpa [fresh] using Headed.makeHeader_append dim 0 0 [], List.nil_sublist _⟩

theorem sync_isOk (syncFault : Option String) : (WalWriter.sync syncFault).isOk = true ↔ syncFault = none := by
  cases syncFault <;> simp [WalWriter.sync, Status.isOk, Status.okStatus, phnswStatus]

theorem inv_step {dim : Nat} (hdim : 0 < dim) {s s' : WalRun} {op : WalOp} (hi : Inv dim s)
    (hq : AtBoundary dim s op) (h : step dim s op = some s') : Inv dim s' := by
  have hlen := hi.headed.le_length
  cases op with
  | batch records fault headerFault syncFault =>
    simp only [step, Option.some.injEq] at h
    subst h
    obtain ⟨hdim', hheaded, hok, n, hrest, hn⟩ := writeBatch_spec (w := s.wal) (by rw [hi.dim_eq]; exact hi.headed)
      (records.map serialize) fault headerFault
    rw [hi.dim_eq] at hdim' hheaded
    refine ⟨hdim', hheaded, ?_⟩
    -- behind the header the file is the old one and a prefix of the frames
    have hscan := scanRecords_congr dim hheaded.le_length (hi.headed.append _).le_length hrest
    simp only [hscan, flushStatus_isOk, sync_isOk]
    split
    · rename_i hack
      obtain ⟨hst, hsync⟩ := hack
      obtain ⟨hfault, hheader⟩ := hok.mp hst
      obtain ⟨hend, hfit⟩ := hq hfault hheader hsync
      rw [List.take_of_length_le (hn hst), scanRecords_append hend hfit, List.map_append]
      exact hi.acked.append_right _
    · exact hi.acked.trans (scanRecords_mono dim _ _).sublist
  | restart =>
    obtain ⟨w, hopen, himage, hwdim⟩ := hi.headed.openWal_eq hdim
    simp only [step, hopen, Option.some.injEq] at h
    subst h
    obtain ⟨-, hdim', hheaded, hscan⟩ := readAll_spec (w := w) (by rw [hwdim, himage]; exact hi.headed)
    rw [hwdim] at hdim' hheaded hscan
    refine ⟨hdim', hheaded, ?_⟩
    rw [hscan, himage]
    exact hi.acked

end WalRun

/-! ## Both writers -/

/-- **Acknowledged records survive** in every run of either writer whose acknowledged batches start at a
frame boundary: the next restart opens the file and `ReadAll` returns them in order. -/
theorem acked_recovered {dim : Nat} (hdim : 0 < dim) (ops : List PendingLogOp) (walOps : List WalOp) :
    (∀ s, run PendingLogRun.step PendingLogRun.fresh ops = some s →
      Along PendingLogRun.step PendingLogRun.AtBoundary PendingLogRun.fresh ops →
      ∃ image, PendingLogWriter.openLog s.image = .ok image ∧
        (s.acked.map PendingEntry.stored).Sublist (PendingLogWriter.readAll image).1) ∧
    (∀ s, run (WalRun.step dim) (WalRun.fresh dim) walOps = some s →
      Along (WalRun.step dim) (WalRun.AtBoundary dim) (WalRun.fresh dim) walOps →
      ∃ wal, Phnsw.WalWriter.openWal dim s.wal.image = .ok wal ∧
        (s.acked.map Phnsw.WalEntry.stored).Sublist (Phnsw.WalWriter.readAll wal dim).1) := by
  refine ⟨fun s hrun hq => ?_, fun s hrun hq => ?_⟩
  · have hi := run_inv (fun hi hq h => PendingLogRun.inv_step hi hq h) PendingLogRun.inv_fresh hq hrun
    exact ⟨s.image, hi.headed.openLog_eq, hi.acked⟩
  · have hi := run_inv (fun hi hq h => WalRun.inv_step hdim hi hq h) (WalRun.inv_fresh dim) hq hrun
    obtain ⟨w, hopen, himage, hwdim⟩ := hi.headed.openWal_eq hdim
    obtain ⟨hread, -⟩ := Phnsw.WalWriter.readAll_spec (w := w) (by rw [hwdim, himage]; exact hi.headed)
    rw [hwdim, himage] at hread
    exact ⟨w, hopen, by rw [hread]; exact hi.acked⟩

/-- A batch, a restart and another batch, none of them torn. -/
def cleanPending : List PendingLogOp :=
  [.batch [{ txnId := 1, docId := [0x64], blockIds := [7] }] none none, .restart,
   .batch [{ state := .committed, txnId := 1 }] none none]

def cleanWal : List WalOp :=
  [.batch [{ blockId := 7, vector := [0] }] none none none, .restart,
   .batch [{ type := .delete, blockId := 7 }] none none none]

theorem acked_recovered_clean :
    (∃ s image, run PendingLogRun.step PendingLogRun.fresh cleanPending = some s ∧ s.acked.length = 2 ∧
      PendingLogWriter.openLog s.image = .ok image ∧
      (s.acked.map PendingEntry.stored).Sublist (PendingLogWriter.readAll image).1) ∧
    ∃ s wal, run (WalRun.step 1) (WalRun.fresh 1) cleanWal = some s ∧ s.acked.length = 2 ∧
      Phnsw.WalWriter.openWal 1 s.wal.image = .ok wal ∧
      (s.acked.map Phnsw.WalEntry.stored).Sublist (Phnsw.WalWriter.readAll wal 1).1 := by
  constructor
  · have hany : (run PendingLogRun.step PendingLogRun.fresh cleanPending).any (·.acked.length == 2) = true := by
      decide +kernel
    obtain ⟨s, hrun, hlen⟩ := Option.any_eq_true _ _ |>.mp hany
    obtain ⟨image, hopen, hsub⟩ := (acked_recovered Nat.one_pos cleanPending cleanWal).1 s hrun (by decide +kernel)
    exact ⟨s, image, hrun, beq_iff_eq.mp hlen, hopen, hsub⟩
  · have hany : (run (WalRun.step 1) (WalRun.fresh 1) cleanWal).any (·.acked.length == 2) = true := by
      decide +kernel
    obtain ⟨s, hrun, hlen⟩ := Option.any_eq_true _ _ |>.mp hany
    obtain ⟨wal, hopen, hsub⟩ := (acked_recovered Nat.one_pos cleanPending cleanWal).2 s hrun (by decide +kernel)
    exact ⟨s, wal, hrun, beq_iff_eq.mp hlen, hopen, hsub⟩

/-- A batch torn after five bytes, then one that succeeds. -/
def tornPending : List PendingLogOp :=
  [.batch [{ txnId := 1, docId := [0x64], blockIds := [7] }] (some ⟨5, "No space left on device"⟩) none,
   .batch [{ txnId := 2, docId := [0x65], blockIds := [8] }] none none]

def tornWal : List WalOp :=
  [.batch [{ blockId := 7, vector := [0] }] (some ⟨5, "No space left on device"⟩) none none,
   .batch [{ blockId := 8, vector := [0] }] none none none]

/-- The torn frame of a failed batch swallows the acknowledged batch behind it. -/
theorem acked_lost :
    (∃ s image, run PendingLogRun.step PendingLogRun.fresh tornPending = some s ∧
      PendingLogWriter.openLog s.image = .ok image ∧
      s.acked = [{ txnId := 2, docId := [0x65], blockIds := [8] }] ∧ (PendingLogWriter.readAll image).1 = []) ∧
    ∃ s wal, run (WalRun.step 1) (WalRun.fresh 1) tornWal = some s ∧
      Phnsw.WalWriter.openWal 1 s.wal.image = .ok wal ∧
      s.acked = [{ blockId := 8, vector := [0] }] ∧ (Phnsw.WalWriter.readAll wal 1).1 = [] := by
  have hpending : (run PendingLogRun.step PendingLogRun.fresh tornPending).any (fun s =>
      (PendingLogWriter.openLog s.image).toOption.any fun image =>
        s.acked == [{ txnId := 2, docId := [0x65], blockIds := [8] }] &&
          (PendingLogWriter.readAll image).1 == []) = true := by decide +kernel
  have hwal : (run (WalRun.step 1) (WalRun.fresh 1) tornWal).any (fun s =>
      (Phnsw.WalWriter.openWal 1 s.wal.image).toOption.any fun wal =>
        s.acked == [{ blockId := 8, vector := [0] }] && (Phnsw.WalWriter.readAll wal 1).1 == []) = true := by
    decide +kernel
  simp only [Option.any_eq_true, toOption_eq_some, Bool.and_eq_true, beq_iff_eq] at hpending hwal
  obtain ⟨s, hrun, image, hopen, hacked, hread⟩ := hpending
  obtain ⟨s', hrun', wal, hopen', hacked', hread'⟩ := hwal
  exact ⟨⟨s, image, hrun, hopen, hacked, hread⟩, s', wal, hrun', hopen', hacked', hread'⟩

end Cortrix.Store
